import EditorSession.Proofs.Frame.Header
import EditorSession.Proofs.Table
import EditorSession.Settings.Words

/-! Reading a configuration text undoes joining. A text is cut at its separators into words, and it is
a joining of exactly these words. Main statement: whatever separators stand between the words, the
options are those of the words that have a key before an equals sign, with the last value of every key;
and every text is such a joining. -/

namespace EditorSession.Settings

/-! ### Joining words -/

/-- A run of separators, or nothing. -/
def Gap (text : Bytes) : Prop := ∀ b ∈ text, isSeparator b = true

/-- A text without separators. -/
def Unbroken (text : Bytes) : Prop := ∀ b ∈ text, isSeparator b = false

instance (text : Bytes) : Decidable (Gap text) := List.decidableBAll _ _

instance (text : Bytes) : Decidable (Unbroken text) := List.decidableBAll _ _

/-- The text has these words in this order, with separators between any two of them and any separators
at both ends. -/
inductive Joins : List Bytes → Bytes → Prop where
  | blank {gap} (hg : Gap gap) : Joins [] gap
  | last {before word behind} (hb : Gap before) (hg : Gap behind) :
      Joins [word] (before ++ word ++ behind)
  | next {before word between words text} (hb : Gap before) (hg : Gap between) (hn : between ≠ [])
      (h : Joins words text) : Joins (word :: words) (before ++ word ++ between ++ text)

theorem gap_nil : Gap [] := fun _ h => nomatch h

theorem unbroken_nil : Unbroken [] := fun _ h => nomatch h

theorem Gap.append {front back : Bytes} (hf : Gap front) (hb : Gap back) : Gap (front ++ back) :=
  List.forall_mem_append.mpr ⟨hf, hb⟩

theorem Joins.gap_append {gap text : Bytes} {words : List Bytes} (hg : Gap gap)
    (h : Joins words text) : Joins words (gap ++ text) := by
  cases h with
  | blank ht => exact .blank (hg.append ht)
  | last hb ht =>
    rw [← List.append_assoc, ← List.append_assoc]
    exact .last (hg.append hb) ht
  | next hb ht hn h =>
    rw [← List.append_assoc, ← List.append_assoc, ← List.append_assoc]
    exact .next (hg.append hb) ht hn h

/-! ### Cutting a text into words -/

theorem tokens_gap {gap : Bytes} (hg : Gap gap) (rest : Bytes) :
    tokens (gap ++ rest) [] = tokens rest [] := by
  induction gap with
  | nil => rfl
  | cons b gap ih =>
    obtain ⟨hb, hg⟩ := List.forall_mem_cons.mp hg
    rw [List.cons_append, tokens, if_pos hb]
    exact ih hg

theorem tokens_cons {b : UInt8} (hb : isSeparator b = false) (rest front : Bytes) :
    tokens (b :: rest) front = tokens rest (b :: front) := by
  cases front <;> simp [tokens, hb]

theorem tokens_unbroken {word : Bytes} (hw : Unbroken word) (rest front : Bytes) :
    tokens (word ++ rest) front = tokens rest (word.reverse ++ front) := by
  induction word generalizing front with
  | nil => rfl
  | cons b word ih =>
    obtain ⟨hb, hw⟩ := List.forall_mem_cons.mp hw
    rw [List.cons_append, tokens_cons hb, ih hw, List.reverse_cons, List.append_assoc,
      List.singleton_append]

theorem tokens_nil {front : Bytes} (hf : front ≠ []) : tokens [] front = [front.reverse] := by
  cases front with
  | nil => exact absurd rfl hf
  | cons b front => rfl

/-- The separators behind a word end it. -/
theorem tokens_between {between front : Bytes} (hg : Gap between) (hn : between ≠ [])
    (hf : front ≠ []) (rest : Bytes) :
    tokens (between ++ rest) front = front.reverse :: tokens rest [] := by
  cases between with
  | nil => exact absurd rfl hn
  | cons b between =>
    obtain ⟨hb, hg⟩ := List.forall_mem_cons.mp hg
    cases front with
    | nil => exact absurd rfl hf
    | cons c front => rw [List.cons_append, tokens, if_pos hb, tokens_gap hg]

/-- Words that can be told apart in a joining. -/
def Words (words : List Bytes) : Prop := ∀ word ∈ words, word ≠ [] ∧ Unbroken word

theorem Joins.tokens_eq {words : List Bytes} {text : Bytes} (h : Joins words text)
    (hw : Words words) : tokens text [] = words := by
  induction h with
  | @blank gap hg =>
    have ht := tokens_gap hg []
    rwa [List.append_nil] at ht
  | @last before word behind hb hg =>
    obtain ⟨hn, hu⟩ := hw word List.mem_cons_self
    have hr : word.reverse ≠ [] := List.reverse_ne_nil_iff.mpr hn
    rw [List.append_assoc, tokens_gap hb, tokens_unbroken hu, List.append_nil]
    cases behind with
    | nil => rw [tokens_nil hr, List.reverse_reverse]
    | cons b behind =>
      have ht := tokens_between hg (List.cons_ne_nil b behind) hr []
      rwa [List.append_nil, List.reverse_reverse] at ht
  | @next before word between words text hb hg hn h ih =>
    obtain ⟨⟨hne, hu⟩, hw⟩ := List.forall_mem_cons.mp hw
    rw [List.append_assoc, List.append_assoc, tokens_gap hb, tokens_unbroken hu, List.append_nil,
      tokens_between hg hn (List.reverse_ne_nil_iff.mpr hne), List.reverse_reverse, ih hw]

/-- The words of a text are joined in it. Read so far is `front`, last byte first. -/
theorem joins_tokens {front : Bytes} (hf : Unbroken front) (text : Bytes) :
    Joins (tokens text front) (front.reverse ++ text) ∧ Words (tokens text front) := by
  fun_induction tokens text front with
  | case1 => exact ⟨.blank gap_nil, List.forall_mem_nil _⟩
  | case2 b front =>
    have hu : Unbroken (b :: front).reverse := fun c hc => hf c (List.mem_reverse.mp hc)
    exact ⟨@Joins.last [] _ [] gap_nil gap_nil, List.forall_mem_singleton.mpr ⟨by simp, hu⟩⟩
  | case3 b text hb ih =>
    obtain ⟨hj, hw⟩ := ih unbroken_nil
    have hg : Gap [b] := List.forall_mem_singleton.mpr hb
    exact ⟨@Joins.gap_append [b] text _ hg hj, hw⟩
  | case4 b text hb c front ih =>
    obtain ⟨hj, hw⟩ := ih unbroken_nil
    have hu : Unbroken (c :: front).reverse := fun d hd => hf d (List.mem_reverse.mp hd)
    refine ⟨?_, List.forall_mem_cons.mpr ⟨⟨by simp, hu⟩, hw⟩⟩
    have hg : Gap [b] := List.forall_mem_singleton.mpr hb
    have hn := @Joins.next [] (c :: front).reverse [b] _ _ gap_nil hg (List.cons_ne_nil b []) hj
    simpa using hn
  | case5 b text front hb ih =>
    have hn := ih (List.forall_mem_cons.mpr ⟨Bool.eq_false_iff.mpr hb, hf⟩)
    rwa [List.reverse_cons, List.append_assoc] at hn

/-- A text has just one way to be a joining of words. -/
theorem tokens_eq_iff {text : Bytes} {words : List Bytes} :
    tokens text [] = words ↔ Joins words text ∧ Words words := by
  constructor
  · rintro rfl
    exact joins_tokens unbroken_nil text
  · rintro ⟨hj, hw⟩
    exact hj.tokens_eq hw

/-! ### Options and other words -/

theorem splitOnce_eq_none_iff {sep : UInt8} {s : Bytes} :
    Bytes.splitOnce sep s = none ↔ sep ∉ s := by
  constructor
  · intro h hm
    obtain ⟨front, back, rfl, hf⟩ := List.eq_append_cons_of_mem hm
    rw [Frame.splitOnce_append hf] at h
    cases h
  · intro h
    cases hs : Bytes.splitOnce sep s with
    | none => rfl
    | some parts =>
      obtain ⟨rfl, -⟩ := Frame.exists_of_splitOnce hs
      simp at h

/-- A word of a configuration text. -/
inductive Part where
  /-- A key and its value. The value may hold equals signs, and it may be empty. -/
  | option (key value : Bytes) (hn : key ≠ []) (he : 61 ∉ key) (hk : Unbroken key)
      (hv : Unbroken value)
  /-- A word without an equals sign. -/
  | bare (word : Bytes) (hn : word ≠ []) (he : 61 ∉ word) (hw : Unbroken word)
  /-- A word that starts with an equals sign. -/
  | keyless (value : Bytes) (hv : Unbroken value)

namespace Part

def text : Part → Bytes
  | option key value _ _ _ _ => key ++ 61 :: value
  | bare word _ _ _ => word
  | keyless value _ => 61 :: value

def pair? : Part → Option (Bytes × Bytes)
  | option key value _ _ _ _ => some (key, value)
  | bare _ _ _ _ => none
  | keyless _ _ => none

theorem unbroken_cons {b : UInt8} {text : Bytes} (hb : isSeparator b = false) (ht : Unbroken text) :
    Unbroken (b :: text) := List.forall_mem_cons.mpr ⟨hb, ht⟩

theorem words_text (part : Part) : part.text ≠ [] ∧ Unbroken part.text := by
  cases part with
  | option key value hn he hk hv =>
    exact ⟨by simp [text], List.forall_mem_append.mpr ⟨hk, unbroken_cons rfl hv⟩⟩
  | bare word hn he hw => exact ⟨hn, hw⟩
  | keyless value hv => exact ⟨List.cons_ne_nil _ _, unbroken_cons rfl hv⟩

theorem option?_text (part : Part) : option? part.text = part.pair? := by
  cases part with
  | option key value hn he hk hv =>
    obtain ⟨b, key, rfl⟩ := List.exists_cons_of_ne_nil hn
    rw [option?, text, Frame.splitOnce_append he]
    rfl
  | bare word hn he hw =>
    rw [option?, text, splitOnce_eq_none_iff.mpr he]
    rfl
  | keyless value hv => rfl

theorem exists_text {word : Bytes} (hn : word ≠ []) (hw : Unbroken word) :
    ∃ part : Part, part.text = word := by
  cases hs : Bytes.splitOnce 61 word with
  | none => exact ⟨.bare word hn (splitOnce_eq_none_iff.mp hs) hw, rfl⟩
  | some parts =>
    obtain ⟨key, value⟩ := parts
    obtain ⟨rfl, he⟩ := Frame.exists_of_splitOnce hs
    obtain ⟨hk, hv⟩ := List.forall_mem_append.mp hw
    have hv : Unbroken value := fun b hb => hv b (List.mem_cons_of_mem _ hb)
    cases key with
    | nil => exact ⟨.keyless value hv, rfl⟩
    | cons b key => exact ⟨.option (b :: key) value (List.cons_ne_nil b key) he hk hv, rfl⟩

end Part

/-! ### Reading options -/

/-- The text is a joining of these parts. -/
def Joined (parts : List Part) (text : Bytes) : Prop := Joins (parts.map Part.text) text

theorem exists_parts {words : List Bytes} (hw : Words words) :
    ∃ parts : List Part, parts.map Part.text = words := by
  induction words with
  | nil => exact ⟨[], rfl⟩
  | cons word words ih =>
    obtain ⟨⟨hn, hu⟩, hw⟩ := List.forall_mem_cons.mp hw
    obtain ⟨part, hp⟩ := Part.exists_text hn hu
    obtain ⟨parts, hs⟩ := ih hw
    exact ⟨part :: parts, by rw [List.map_cons, hp, hs]⟩

theorem exists_joined (text : Bytes) : ∃ parts, Joined parts text := by
  obtain ⟨hj, hw⟩ := tokens_eq_iff.mp (Eq.refl (tokens text []))
  obtain ⟨parts, hp⟩ := exists_parts hw
  exact ⟨parts, by rwa [Joined, hp]⟩

/-- The options of a joining are the pairs among its parts. -/
theorem Joined.options_eq {parts : List Part} {text : Bytes} (h : Joined parts text) :
    options text = Table.ofPairs (parts.filterMap Part.pair?) := by
  have hw : Words (parts.map Part.text) := List.forall_mem_map.mpr fun part _ => part.words_text
  have ho : option? ∘ Part.text = Part.pair? := funext Part.option?_text
  rw [options, tokens_eq_iff.mpr ⟨h, hw⟩, List.filterMap_map, ho]

/-- Reading undoes every joining: each key has the value of its last pair, and there is no other key.
Every text can be read so. -/
theorem options_undoJoining (text : Bytes) :
    (∃ parts, Joined parts text) ∧
      ∀ parts, Joined parts text → Table.HoldsLast (parts.filterMap Part.pair?) (options text) := by
  refine ⟨exists_joined text, fun parts h => ?_⟩
  rw [h.options_eq]
  exact Table.holdsLast_ofPairs _

/-- A key that comes twice, between words that are no options. -/
def crowdedParts : List Part :=
  [.option (ascii "dir") (ascii "a") (by decide) (by decide) (by decide) (by decide),
    .keyless (ascii "x") (by decide), .bare (ascii "flag") (by decide) (by decide) (by decide),
    .option (ascii "dir") (ascii "b=c") (by decide) (by decide) (by decide) (by decide),
    .option (ascii "note") [] (by decide) (by decide) (by decide) (by decide)]

theorem options_undoJoining_crowdedParts :
    Joined crowdedParts (ascii " dir=a; =x\tflag;;dir=b=c note= ") ∧
      Table.HoldsLast [(ascii "dir", ascii "a"), (ascii "dir", ascii "b=c"), (ascii "note", [])]
        (options (ascii " dir=a; =x\tflag;;dir=b=c note= ")) := by
  have hj : Joined crowdedParts (ascii " dir=a; =x\tflag;;dir=b=c note= ") :=
    @Joins.next (ascii " ") (ascii "dir=a") (ascii "; ") _ _ (by decide) (by decide) (by decide) <|
    @Joins.next [] (ascii "=x") (ascii "\t") _ _ (by decide) (by decide) (by decide) <|
    @Joins.next [] (ascii "flag") (ascii ";;") _ _ (by decide) (by decide) (by decide) <|
    @Joins.next [] (ascii "dir=b=c") (ascii " ") _ _ (by decide) (by decide) (by decide) <|
    @Joins.last [] (ascii "note=") (ascii " ") (by decide) (by decide)
  exact ⟨hj, (options_undoJoining _).2 _ hj⟩

end EditorSession.Settings
