import EditorSession.Proofs.Analysis.Translation

/-! What features have in common. The params of a request ask something of a document, or of the
workspace; only then is it looked up whether there is a handle to ask through. And whatever becomes of
the question, the request ends in one of few ways, the same for every feature. -/

namespace EditorSession.Analysis

/-- What a request asks: of a document, through its handle, or of the workspace. -/
inductive Ask where
  | document (uri : Bytes) (query : Handle → Query)
  | workspace (query : Query)

/-- The question to be put. There is none of a document without a handle. -/
def Ask.query? (handleOf : Bytes → Option Handle) : Ask → Option Query
  | document uri query => (handleOf uri).map query
  | workspace query => some query

namespace Feature

/-- What the params of a request ask, with everything that was read from them. -/
def ask (feature : Feature) (params : Option Json) : Lsp.Reading Ask :=
  match feature with
  | completion => (Lsp.DocumentPosition.read params).map fun p =>
    .document p.uri fun handle => .completion handle p.position
  | hover => (Lsp.DocumentPosition.read params).map fun p =>
    .document p.uri fun handle => .hover handle p.position
  | definition => (Lsp.DocumentPosition.read params).map fun p =>
    .document p.uri fun handle => .definition handle p.position
  | references => (Lsp.ReferenceQuery.read params).map fun p =>
    .document p.uri fun handle => .references handle p.position p.includeDeclaration
  | rename => (Lsp.RenameQuery.read params).map fun p =>
    .document p.uri fun handle => .rename handle p.position p.newName
  | documentSymbol => (Lsp.readDocumentUri params).map fun uri => .document uri .documentSymbol
  | workspaceSymbol => (Lsp.readSymbolQuery params).map fun text =>
    .workspace (.workspaceSymbol text)

/-- Params are read first, and then the handle is looked up. -/
theorem query?_eq (feature : Feature) (handleOf : Bytes → Option Handle) (params : Option Json) :
    feature.query? handleOf params = (feature.ask params).map (Ask.query? handleOf) := by
  cases feature with
  | completion | hover | definition =>
    unfold query? ask
    cases Lsp.DocumentPosition.read params <;> rfl
  | references =>
    unfold query? ask
    cases Lsp.ReferenceQuery.read params <;> rfl
  | rename =>
    unfold query? ask
    cases Lsp.RenameQuery.read params <;> rfl
  | documentSymbol =>
    unfold query? ask
    cases Lsp.readDocumentUri params <;> rfl
  | workspaceSymbol =>
    unfold query? ask
    cases Lsp.readSymbolQuery params <;> rfl

theorem exists_of_map {α : Type} {reading : Lsp.Reading α} {f : α → Ask} {ask : Ask}
    (h : reading.map f = .ok ask) : ∃ p, reading = .ok p ∧ f p = ask := by
  cases reading with
  | error flaw => cases h
  | ok p => exact ⟨p, rfl, Except.ok.inj h⟩

/-- Every question is of the feature that it is put for. -/
theorem feature_of_ask {feature : Feature} {handleOf : Bytes → Option Handle} {params : Option Json}
    {ask : Ask} {query : Query} (ha : feature.ask params = .ok ask)
    (hq : ask.query? handleOf = some query) : query.feature = feature := by
  have document {uri : Bytes} {put : Handle → Query} (h : ask = .document uri put) :
      ∃ handle, put handle = query := by
    subst h
    obtain ⟨handle, -, hp⟩ := Option.map_eq_some_iff.mp hq
    exact ⟨handle, hp⟩
  cases feature with
  | completion | hover | definition | references | rename | documentSymbol =>
    obtain ⟨p, -, rfl⟩ := exists_of_map ha
    obtain ⟨handle, rfl⟩ := document rfl
    rfl
  | workspaceSymbol =>
    obtain ⟨text, -, rfl⟩ := exists_of_map ha
    obtain rfl := Option.some.inj hq
    rfl

end Feature

/-- How a request ends: what becomes of the engine's answer, according to whether a stop was asked
for. The result tells the answer, and after a crash it tells an empty one. -/
inductive Degrades (feature : Feature) : Bool → Outcome feature.Result → Outcome Json → Prop where
  | cancelled (stopped) : Degrades feature stopped (.error .cancelled) (.error .cancelled)
  | refused (stopped r) : Degrades feature stopped (.error (.refused r)) (.error (.refused r))
  | crashedLate (reason) : Degrades feature true (.error (.crashed reason)) (.error .cancelled)
  | resultLate (result) : Degrades feature true (.ok result) (.error .cancelled)
  | crashed (reason) {v} (hv : feature.Tells v (Absent.result feature)) :
      Degrades feature false (.error (.crashed reason)) (.ok v)
  | result (result) {v} (hv : feature.Tells v result) :
      Degrades feature false (.ok result) (.ok v)

namespace Degrades

variable {feature : Feature} {stopped : Bool} {answer : Outcome feature.Result}
  {outcome : Outcome Json}

theorem respond (feature : Feature) (stopped : Bool) (answer : Outcome feature.Result) :
    Degrades feature stopped answer (feature.respond stopped answer).1 := by
  cases answer with
  | ok result =>
    cases stopped with
    | false => exact .result result (feature.tells_resultJson result)
    | true => exact .resultLate result
  | error failure =>
    cases failure with
    | cancelled => exact .cancelled stopped
    | refused r => exact .refused stopped r
    | crashed reason =>
      cases stopped with
      | false => exact .crashed reason feature.tells_emptyResult
      | true => exact .crashedLate reason

/-- An engine that fails is not an internal error, unless the engine refuses the request as one. -/
theorem refused_of_internal (h : Degrades feature stopped answer outcome) {failure : Rpc.Failure}
    (ho : outcome = .error failure) (hc : failure.code = Rpc.Code.internalError) :
    ∃ r, answer = .error (.refused r) ∧ failure = .refused r := by
  cases h with
  | cancelled | crashedLate | resultLate =>
    obtain rfl := Except.error.inj ho
    exact absurd hc (by decide)
  | refused _ r => exact ⟨r, rfl, (Except.error.inj ho).symm⟩
  | crashed | result => cases ho

end Degrades

end EditorSession.Analysis
