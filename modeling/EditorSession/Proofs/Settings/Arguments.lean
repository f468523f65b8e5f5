import EditorSession.Settings.CommandLine
import Mathlib.Tactic.SplitIfs

/-! The command line is read from left to right. Reading is a scan: each argument is an option, the
value of the flag before it, or not looked at any more, and the arguments before it tell which. So
arguments can be read in two parts, and a value may stand in the argument of its flag or in the next
one. -/

namespace EditorSession.Settings

/-! ### What one argument means -/

theorem ValueFlag.name_injective {f g : ValueFlag} (h : f.name = g.name) : f = g := by
  cases f <;> cases g <;> first | rfl | exact absurd h (by decide)

/-- A flag and its value in one argument. -/
def ValueFlag.joined (f : ValueFlag) (value : Bytes) : Bytes := ascii f.name ++ 61 :: value

theorem joined?_joined (f : ValueFlag) (value : Bytes) : joined? f (f.joined value) = some value := by
  have h : f.joined value = (ascii f.name ++ [61]) ++ value := by simp [ValueFlag.joined]
  rw [h, joined?, if_pos (List.isPrefixOf_iff_prefix.mpr (List.prefix_append _ _)),
    List.drop_left]

theorem Word.ofArgument_name (f : ValueFlag) : ofArgument (ascii f.name) = .flag f := by
  cases f <;> decide

theorem Word.ofArgument_joined (f : ValueFlag) (value : Bytes) :
    ofArgument (f.joined value) = .flagWith f value := by
  have hj := joined?_joined f value
  cases f with
  | logLevel =>
    have hw : ofValueFlag? .logLevel (ValueFlag.joined .logLevel value) =
        some (.flagWith .logLevel value) := by
      rw [ofValueFlag?, if_neg (by simp [ValueFlag.joined]), hj, Option.map_some]
    rw [ofArgument, hw]
    simp [ValueFlag.joined, ValueFlag.name, ascii]
  | pipeDir =>
    have hw : ofValueFlag? .pipeDir (ValueFlag.joined .pipeDir value) =
        some (.flagWith .pipeDir value) := by
      rw [ofValueFlag?, if_neg (by simp [ValueFlag.joined]), hj, Option.map_some]
    have hl : ofValueFlag? .logLevel (ValueFlag.joined .pipeDir value) = none := by
      simp [ofValueFlag?, joined?, ValueFlag.joined, ValueFlag.name, ascii]
    rw [ofArgument, hw, hl]
    simp [ValueFlag.joined, ValueFlag.name, ascii]

theorem Word.ofValueFlag?_ne_action (f : ValueFlag) (argument : Bytes) (action : Action) :
    ofValueFlag? f argument ≠ some (.action action) := by
  unfold ofValueFlag?
  split
  · nofun
  · cases joined? f argument <;> nofun

/-- Running is what is done when no argument asks for anything else. -/
theorem Word.ofArgument_ne_run (argument : Bytes) : ofArgument argument ≠ .action .run := by
  have hl := ofValueFlag?_ne_action .logLevel argument .run
  have hp := ofValueFlag?_ne_action .pipeDir argument .run
  have hv : ((ofValueFlag? .logLevel argument).orElse fun _ =>
      ofValueFlag? .pipeDir argument).getD .unknown ≠ .action .run := by
    cases hw : ofValueFlag? .logLevel argument with
    | some w => exact fun h => hl (hw.trans (congrArg some h))
    | none =>
      cases hw : ofValueFlag? .pipeDir argument with
      | some w => exact fun h => hp (hw.trans (congrArg some h))
      | none => nofun
  unfold ofArgument
  split_ifs <;> first | exact hv | simp

/-! ### The scan -/

/-- Where the reading of arguments stands. -/
inductive Standing where
  /-- The next argument is read as an option. -/
  | option (s : Configuration)
  /-- The next argument is the value of a flag. -/
  | value (f : ValueFlag) (s : Configuration)
  /-- The next argument is not looked at. -/
  | finished (s : Configuration) (outcome : Except ArgumentFlaw Action)

namespace Standing

/-- After a flag and its value. -/
def assigned (f : ValueFlag) (word : Bytes) (s : Configuration) : Standing :=
  match f.assign word s with
  | .error flaw => finished s (.error flaw)
  | .ok s => option s

/-- One argument more. -/
def next : Standing → Bytes → Standing
  | option s, argument =>
    match Word.ofArgument argument with
    | .transport t => option { s with transport := t }
    | .action action => finished s (.ok action)
    | .unknown => finished s (.error (.unknownOption argument))
    | .flagWith f word => assigned f word s
    | .flag f => value f s
  | value f s, argument => assigned f argument s
  | finished s outcome, _ => finished s outcome

/-- What the reading comes to without further arguments. -/
def result : Standing → Configuration × Except ArgumentFlaw Action
  | option s => (s, .ok .run)
  | value f s => (s, .error (.valueMissing f.name))
  | finished s outcome => (s, outcome)

theorem foldl_finished (s : Configuration) (outcome : Except ArgumentFlaw Action) (args : List Bytes) :
    args.foldl next (finished s outcome) = finished s outcome := by
  induction args with
  | nil => rfl
  | cons argument args ih => exact ih

end Standing

open Standing

/-- Where the reading stands after some arguments. -/
def standing (s : Configuration) (args : List Bytes) : Standing := args.foldl next (option s)

theorem apply_eq_result (s : Configuration) (args : List Bytes) :
    apply s args = (standing s args).result := by
  unfold standing
  fun_induction apply s args with
  | case1 s => rfl
  | case2 s argument rest t h ih => rw [ih, List.foldl_cons, next, h]
  | case3 s argument rest action h => rw [List.foldl_cons, next, h, foldl_finished, result]
  | case4 s argument rest h => rw [List.foldl_cons, next, h, foldl_finished, result]
  | case5 s argument rest f word h flaw hf =>
    rw [List.foldl_cons, next, h]
    simp only [assigned, hf, foldl_finished, result]
  | case6 s argument rest f word h s' hf ih =>
    rw [ih, List.foldl_cons, next, h]
    simp only [assigned, hf]
  | case7 s argument f h => rw [List.foldl_cons, next, h]; rfl
  | case8 s argument f h word rest flaw hf =>
    rw [List.foldl_cons, next, h, List.foldl_cons, next]
    simp only [assigned, hf, foldl_finished, result]
  | case9 s argument f h word rest s' hf ih =>
    rw [ih, List.foldl_cons, next, h, List.foldl_cons, next]
    simp only [assigned, hf]

theorem standing_append (s : Configuration) (a b : List Bytes) :
    standing s (a ++ b) = b.foldl next (standing s a) := List.foldl_append

/-- A reading that is over has come to an action other than running, or to a flaw other than a value
that is still missing. -/
def Standing.Settled : Standing → Prop
  | option _ => True
  | value _ _ => True
  | finished _ outcome => outcome ≠ .ok .run ∧ ∀ f, outcome ≠ .error (.valueMissing (ValueFlag.name f))

/-- Setting a value never lacks one. -/
theorem ValueFlag.assign_ne_valueMissing (f g : ValueFlag) (word : Bytes) (s : Configuration) :
    f.assign word s ≠ .error (.valueMissing g.name) := by
  unfold assign
  cases f <;> dsimp only <;> split <;> simp

theorem Standing.settled_assigned (f : ValueFlag) (word : Bytes) (s : Configuration) :
    (assigned f word s).Settled := by
  have hv := fun g => f.assign_ne_valueMissing g word s
  unfold assigned
  cases hs : f.assign word s with
  | ok s' => trivial
  | error flaw => exact ⟨nofun, fun g he => hv g (hs.trans (congrArg _ (Except.error.inj he)))⟩

theorem Standing.settled_next {st : Standing} (h : st.Settled) (argument : Bytes) :
    (st.next argument).Settled := by
  cases st with
  | option s =>
    have hr := Word.ofArgument_ne_run argument
    rw [next]
    split
    case h_2 action ha => exact ⟨fun he => hr (by rw [ha, Except.ok.inj he]), nofun⟩
    case h_4 f word _ => exact settled_assigned f word s
    all_goals simp [Settled]
  | value f s => exact settled_assigned f argument s
  | finished s outcome => exact h

theorem settled_standing (s : Configuration) (args : List Bytes) : (standing s args).Settled := by
  have h (st : Standing) (hs : st.Settled) : (args.foldl next st).Settled := by
    induction args generalizing st with
    | nil => exact hs
    | cons argument args ih => exact ih _ (settled_next hs argument)
  exact h _ trivial

/-! ### What a result tells of the standing -/

section

variable {s s' : Configuration} {args : List Bytes}

theorem standing_of_run (h : apply s args = (s', .ok .run)) : standing s args = option s' := by
  have hs := settled_standing s args
  rw [apply_eq_result] at h
  cases hst : standing s args with
  | option c => rw [hst] at h; rw [(Prod.mk.inj h).1]
  | value f c => rw [hst] at h; cases h
  | finished c outcome =>
    rw [hst] at h hs
    exact absurd (Prod.mk.inj h).2 hs.1

theorem standing_of_valueMissing {f : ValueFlag}
    (h : apply s args = (s', .error (.valueMissing f.name))) : standing s args = value f s' := by
  have hs := settled_standing s args
  rw [apply_eq_result] at h
  cases hst : standing s args with
  | option c => rw [hst] at h; cases h
  | value g c =>
    rw [hst] at h
    obtain ⟨rfl, hg⟩ := Prod.mk.inj h
    obtain rfl : g = f := ValueFlag.name_injective (ArgumentFlaw.valueMissing.inj (Except.error.inj hg))
    rfl
  | finished c outcome =>
    rw [hst] at h hs
    exact absurd (Prod.mk.inj h).2 (hs.2 f)

theorem standing_of_finished {outcome : Except ArgumentFlaw Action} (h : apply s args = (s', outcome))
    (hr : outcome ≠ .ok .run) (hv : ∀ f, outcome ≠ .error (.valueMissing (ValueFlag.name f))) :
    standing s args = finished s' outcome := by
  rw [apply_eq_result] at h
  cases hst : standing s args with
  | option c => rw [hst] at h; exact absurd (Prod.mk.inj h).2.symm hr
  | value f c => rw [hst] at h; exact absurd (Prod.mk.inj h).2.symm (hv f)
  | finished c o =>
    rw [hst] at h
    obtain ⟨rfl, rfl⟩ := Prod.mk.inj h
    rfl

/-- Reading goes on from where it stands. -/
theorem apply_append {st : Standing} (h : standing s args = st) (more : List Bytes) :
    apply s (args ++ more) = (more.foldl next st).result := by
  rw [apply_eq_result, standing_append, h]

end

/-! ### Both laws -/

/-- The argument that follows these is the value of the flag. -/
def Awaits (f : ValueFlag) (s : Configuration) (args : List Bytes) : Prop :=
  (apply s args).2 = .error (.valueMissing f.name)

/-- How arguments are applied. -/
structure LeftToRight : Prop where
  /-- Unless it is itself the value of the flag before it, an argument that holds a flag and its value
  means what the flag and the value mean as two arguments. -/
  forms : ∀ (s : Configuration) (front : List Bytes) (f : ValueFlag) (word : Bytes) (back : List Bytes),
    (∀ g, ¬Awaits g s front) →
      apply s (front ++ f.joined word :: back) = apply s (front ++ ascii f.name :: word :: back)
  /-- Arguments after which the server is to run are applied before those behind them. -/
  run : ∀ (s s' : Configuration) (a b : List Bytes), apply s a = (s', .ok .run) →
    apply s (a ++ b) = apply s' b
  /-- The version and the help end the reading. -/
  action : ∀ (s s' : Configuration) (a b : List Bytes) (action : Action), action ≠ .run →
    apply s a = (s', .ok action) → apply s (a ++ b) = (s', .ok action)
  /-- So does a flaw, unless it is a value that the next argument may bring. -/
  flaw : ∀ (s s' : Configuration) (a b : List Bytes) (flaw : ArgumentFlaw),
    (∀ g, flaw ≠ .valueMissing (ValueFlag.name g)) → apply s a = (s', .error flaw) →
      apply s (a ++ b) = (s', .error flaw)
  awaiting : ∀ (s s' : Configuration) (a b : List Bytes) (f : ValueFlag),
    apply s a = (s', .error (.valueMissing f.name)) →
      apply s (a ++ b) = apply s' (ascii f.name :: b)

theorem leftToRight : LeftToRight where
  forms s front f word back h := by
    cases hst : standing s front with
    | option c =>
      rw [apply_append hst, apply_append hst, List.foldl_cons, List.foldl_cons, List.foldl_cons, next,
        Word.ofArgument_joined, next, Word.ofArgument_name, next]
    | value g c => exact absurd (by rw [Awaits, apply_eq_result, hst]; rfl) (h g)
    | finished c outcome => rw [apply_append hst, apply_append hst, foldl_finished, foldl_finished]
  run s s' a b h := by
    rw [apply_append (standing_of_run h), apply_eq_result, standing]
  action s s' a b action ha h := by
    have hst := standing_of_finished h (fun he => ha (Except.ok.inj he)) nofun
    rw [apply_append hst, foldl_finished, result]
  flaw s s' a b flaw hf h := by
    have hst := standing_of_finished h nofun fun f he => hf f (Except.error.inj he)
    rw [apply_append hst, foldl_finished, result]
  awaiting s s' a b f h := by
    rw [apply_append (standing_of_valueMissing h), apply_eq_result, standing, List.foldl_cons, next,
      Word.ofArgument_name]

/-- After a directory that is spelled like a joined flag, the next argument is an option again. -/
theorem leftToRight_flagLikeValue :
    let s : Configuration := { pipeDirectory := [] }
    (∀ g, ¬Awaits g s [ascii "--pipeDir", ascii "--logLevel=x"]) ∧
      apply s ([ascii "--pipeDir", ascii "--logLevel=x"] ++ [ValueFlag.joined .logLevel (ascii "warn")]) =
        ({ s with pipeDirectory := ascii "--logLevel=x", logLevel := ascii "warn" }, .ok .run) := by
  intro s
  have h : ∀ g, ¬Awaits g s [ascii "--pipeDir", ascii "--logLevel=x"] := by
    intro g
    cases g <;> exact fun ha => nomatch (ha : Except.ok _ = _)
  exact ⟨h, (leftToRight.forms s _ .logLevel (ascii "warn") [] h).trans rfl⟩

end EditorSession.Settings
