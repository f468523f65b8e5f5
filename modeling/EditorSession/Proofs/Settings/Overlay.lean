import EditorSession.Proofs.Numeral
import EditorSession.Settings.Load
import Mathlib.Algebra.Group.Int.Defs

/-! Main statement: a setting depends on its own variable only, and is what that variable says or,
where the variable is unset, empty or malformed, the default. The one exception is a delay of
`2 ^ 63` or more that still fits an unsigned word: it comes out negative. -/

namespace EditorSession

open Bytes (Denotes)

namespace Environment

/-! ### Variables -/

variable {env : Environment} {name other value entry : Bytes}

theorem valueIn?_eq_some_iff : valueIn? name entry = some value ↔ entry = name ++ 61 :: value := by
  rw [valueIn?]
  constructor
  · intro h
    split at h
    case isTrue hp =>
      obtain ⟨rest, rfl⟩ := List.isPrefixOf_iff_prefix.mp hp
      simp_all
    case isFalse => cases h
  · rintro rfl
    rw [if_pos (List.isPrefixOf_iff_prefix.mpr ⟨value, by simp⟩)]
    simp

theorem takeWhile_entry (hn : 61 ∉ name) (value : Bytes) :
    (name ++ 61 :: value).takeWhile (· ≠ 61) = name := by
  rw [List.takeWhile_append_of_pos (by simpa using fun b hb => ne_of_mem_of_not_mem hb hn)]
  simp

/-- An entry is for one name only. -/
theorem valueIn?_of_ne (hn : 61 ∉ name) (ho : 61 ∉ other) (hne : name ≠ other)
    (h : valueIn? name entry ≠ none) : valueIn? other entry = none := by
  obtain ⟨value, hv⟩ := Option.ne_none_iff_exists'.mp h
  refine Option.eq_none_iff_forall_ne_some.mpr fun value' hv' => ?_
  rw [valueIn?_eq_some_iff] at hv hv'
  rw [← takeWhile_entry hn value, ← takeWhile_entry ho value', ← hv, ← hv'] at hne
  exact hne rfl

/-- A variable that is set is found, -/
theorem lookup?_set_self (hn : Bytes.beforeNul name = name) (hne : name ≠ []) (he : 61 ∉ name)
    (hv : Bytes.beforeNul value = value) : (env.set name value).lookup? name = some value := by
  have hold : (env.entries.filter fun entry => (valueIn? name entry).isNone).findSome?
      (valueIn? name) = none :=
    List.findSome?_eq_none_iff.mpr fun entry h => Option.isNone_iff_eq_none.mp (List.mem_filter.mp h).2
  have hnew : valueIn? name (name ++ 61 :: value) = some value := valueIn?_eq_some_iff.mpr rfl
  simp only [set, hn, hv]
  rw [if_neg (by simpa [hne] using he), lookup?, List.findSome?_append, hold, List.findSome?_cons, hnew]
  rfl

/-- and the others are left alone. -/
theorem lookup?_set_of_ne (ho : 61 ∉ other) (h : Bytes.beforeNul name ≠ other) (value : Bytes) :
    (env.set name value).lookup? other = env.lookup? other := by
  simp only [set]
  split
  case isTrue => rfl
  case isFalse hn =>
    have hn' : 61 ∉ Bytes.beforeNul name := fun hm => hn (.inr hm)
    have hnew : valueIn? other (Bytes.beforeNul name ++ 61 :: Bytes.beforeNul value) = none :=
      valueIn?_of_ne hn' ho h (by rw [valueIn?_eq_some_iff.mpr rfl]; exact Option.some_ne_none _)
    have hold (entries : List Bytes) :
        (entries.filter fun entry => (valueIn? (Bytes.beforeNul name) entry).isNone).findSome?
          (valueIn? other) = entries.findSome? (valueIn? other) := by
      induction entries with
      | nil => rfl
      | cons entry entries ih =>
        by_cases he : valueIn? (Bytes.beforeNul name) entry = none
        · rw [List.filter_cons_of_pos (by simp [he]), List.findSome?_cons, List.findSome?_cons, ih]
        · rw [List.filter_cons_of_neg (by simpa using he), List.findSome?_cons,
            valueIn?_of_ne hn' ho h he, ih]
    simp only [lookup?, List.findSome?_append, hold, List.findSome?_cons, hnew, List.findSome?_nil,
      Option.or_none]

/-- A name that holds no zero byte is looked up as it is. -/
theorem get?_eq (hn : Bytes.beforeNul name = name) (hne : name ≠ []) :
    env.get? name = (env.lookup? name).filter (· ≠ []) := by
  simp [get?, hn, hne]

end Environment

namespace Settings

/-! ### What a text means -/

/-- What a variable comes to: what its text means, or the default where it is unset or its text means
nothing. -/
structure Resolved {α : Type} (text? : Option Bytes) (means : Bytes → α → Prop) (default result : α) :
    Prop where
  written : ∀ text ∈ text?, ∀ a, means text a → result = a
  otherwise : (∀ text ∈ text?, ∀ a, ¬means text a) → result = default

def IsTransport (text : Bytes) (transport : Transport) : Prop :=
  (text, transport) ∈ [(ascii "pipe", .pipe), (ascii "stdio", .stdio)]

/-- Any text that is not empty is meant as it is written. -/
def Verbatim (text meant : Bytes) : Prop := text ≠ [] ∧ text = meant

/-- A numeral of the delay, which is not negative, with any number of leading zeros. -/
def IsDelay (text : Bytes) (delay : Int64) : Prop := ∃ n : Nat, Denotes text n ∧ delay.toInt = n

def IsSeverity (text : Bytes) (severity : Lsp.Severity) : Prop :=
  ∃ word, (word, severity) ∈ Lsp.Severity.words ∧ ascii word = text.lower

def IsSwitch (text : Bytes) (on : Bool) : Prop :=
  ∃ word ∈ if on then Environment.trueWords else Environment.falseWords, ascii word = text

/-- A numeral of the limit, which is not zero, with any number of leading zeros. -/
def IsLimit (text : Bytes) (limit : UInt64) : Prop := Denotes text limit.toNat ∧ 0 < limit.toNat

/-- A delay that fits an unsigned word but not a signed one. -/
def Wraps (text : Bytes) : Prop := ∃ n, Denotes text n ∧ 2 ^ 63 ≤ n ∧ n < 2 ^ 64

/-- The variable of the delay. -/
abbrev delayText? (env : Environment) : Option Bytes :=
  env.lookup? (ascii "VBLS_DIAGNOSTICS_DEBOUNCE_MS")

/-- A configuration that is exactly what the environment says. -/
structure Overlaid (env : Environment) (c : Configuration) : Prop where
  transport : Resolved (env.lookup? (ascii "VBLS_TRANSPORT")) IsTransport .pipe c.transport
  pipeDirectory : ∃ temporary, Resolved (env.lookup? (ascii "TMPDIR")) Verbatim (ascii "/tmp") temporary ∧
    Resolved (env.lookup? (ascii "VBLS_PIPE_DIR")) Verbatim temporary c.pipeDirectory
  logLevel : Resolved (env.lookup? (ascii "VBLS_LOG_LEVEL")) Verbatim (ascii "info") c.logLevel
  logFile : Resolved (env.lookup? (ascii "VBLS_LOG_FILE")) Verbatim [] c.logFile
  limit : Resolved (env.lookup? (ascii "VBLS_MAX_CONTENT_LENGTH")) IsLimit 67108864 c.limit
  threshold : Resolved (env.lookup? (ascii "VBLS_DIAGNOSTICS_MIN_SEVERITY")) IsSeverity .warning
    c.diagnostics.threshold
  enabled : Resolved (env.lookup? (ascii "VBLS_DIAGNOSTICS_ENABLED")) IsSwitch true
    c.diagnostics.enabled
  /-- A delay that fits its signed word, or no word at all, is dealt with like the others. -/
  delay : (∀ text ∈ delayText? env, ¬Wraps text) →
    Resolved (delayText? env) IsDelay 300 c.diagnostics.delay
  wrapped : ∀ text ∈ delayText? env, ∀ n, Denotes text n → 2 ^ 63 ≤ n → n < 2 ^ 64 →
    c.diagnostics.delay.toInt = n - 2 ^ 64
  /-- No other delay is negative. -/
  negative : c.diagnostics.delay < 0 ↔ ∃ text ∈ delayText? env, Wraps text
  threads : c.diagnostics.threads = 2

/-- The setting depends on these variables only, and setting another one does not change it. -/
structure DependsOnlyOn {α : Type} (env : Environment) (names : List String)
    (setting : Configuration → α) : Prop where
  determined : ∀ other : Environment,
    (∀ name ∈ names, env.lookup? (ascii name) = other.lookup? (ascii name)) →
      setting (load env).1 = setting (load other).1
  unaffected : ∀ name value, (∀ own ∈ names, Bytes.beforeNul name ≠ ascii own) →
    setting (load env).1 = setting (load (env.set name value)).1

/-- Every setting has variables of its own. -/
structure Separate (env : Environment) : Prop where
  transport : DependsOnlyOn env ["VBLS_TRANSPORT"] (·.transport)
  pipeDirectory : DependsOnlyOn env ["VBLS_PIPE_DIR", "TMPDIR"] (·.pipeDirectory)
  logLevel : DependsOnlyOn env ["VBLS_LOG_LEVEL"] (·.logLevel)
  logFile : DependsOnlyOn env ["VBLS_LOG_FILE"] (·.logFile)
  limit : DependsOnlyOn env ["VBLS_MAX_CONTENT_LENGTH"] (·.limit)
  threshold : DependsOnlyOn env ["VBLS_DIAGNOSTICS_MIN_SEVERITY"] (·.diagnostics.threshold)
  enabled : DependsOnlyOn env ["VBLS_DIAGNOSTICS_ENABLED"] (·.diagnostics.enabled)
  delay : DependsOnlyOn env ["VBLS_DIAGNOSTICS_DEBOUNCE_MS"] (·.diagnostics.delay)
  threads : DependsOnlyOn env [] (·.diagnostics.threads)

/-! ### What is read -/

section Reading

variable {α : Type} {read? : Bytes → Option α} {means means' : Bytes → α → Prop} {default result : α}
  {env : Environment} {name : Bytes}

/-- Reading a text finds what it means, and the empty text means nothing. -/
def Reads (read? : Bytes → Option α) (means : Bytes → α → Prop) : Prop :=
  ∀ text a, means text a ↔ text ≠ [] ∧ read? text = some a

theorem Reads.resolved (h : Reads read? means) (hn : Bytes.beforeNul name = name) (hne : name ≠ [])
    (env : Environment) (default : α) :
    Resolved (env.lookup? name) means default (((env.get? name).bind read?).getD default) := by
  rw [Environment.get?_eq hn hne]
  cases hl : env.lookup? name with
  | none => exact ⟨nofun, fun _ => rfl⟩
  | some text =>
    by_cases ht : text = []
    · subst ht
      exact ⟨by simp [h _ _], fun _ => by simp [Option.filter]⟩
    · have hf : (some text).filter (· ≠ []) = some text := by simp [ht]
      rw [hf]
      constructor
      · rintro _ ⟨⟩ a ha
        simp [((h _ _).mp ha).2]
      · intro hnone
        cases hr : read? text with
        | none => simp [hr]
        | some a => exact absurd ((h _ _).mpr ⟨ht, hr⟩) (hnone text rfl a)

theorem Resolved.congr {text? : Option Bytes} (h : Resolved text? means default result)
    (hm : ∀ text ∈ text?, ∀ a, means' text a ↔ means text a) : Resolved text? means' default result where
  written text ht a ha := h.written text ht a ((hm text ht a).mp ha)
  otherwise hnone := h.otherwise fun text ht a ha => hnone text ht a ((hm text ht a).mpr ha)

/-- A setting is what its variable is written for, or the default. -/
theorem Resolved.cases {text? : Option Bytes} (h : Resolved text? means default result) :
    result = default ∨ ∃ text ∈ text?, means text result := by
  by_cases hm : ∃ text ∈ text?, ∃ a, means text a
  · obtain ⟨text, ht, a, ha⟩ := hm
    exact .inr ⟨text, ht, (h.written text ht a ha).symm ▸ ha⟩
  · exact .inl (h.otherwise fun text ht a ha => hm ⟨text, ht, a, ha⟩)

theorem Reads.resolved_overlay (h : Reads read? means) {name : String}
    (hn : Bytes.beforeNul (ascii name) = ascii name) (hne : ascii name ≠ []) (env : Environment)
    (hint : String) (default : α) :
    Resolved (env.lookup? (ascii name)) means default (overlay env name hint read? default).1 := by
  have hfst : (overlay env name hint read? default).1 =
      ((env.get? (ascii name)).bind read?).getD default := by
    rw [overlay]
    cases env.get? (ascii name) with
    | none => rfl
    | some text => cases h : read? text <;> simp [h]
  rw [hfst]
  exact h.resolved hn hne env default

end Reading

theorem reads_transport : Reads Transport.ofName? IsTransport := by
  intro text transport
  simp only [IsTransport, Transport.ofName?, List.mem_cons, Prod.mk.injEq, List.not_mem_nil, or_false]
  constructor
  · rintro (⟨rfl, rfl⟩ | ⟨rfl, rfl⟩) <;> decide
  · rintro ⟨-, h⟩
    split at h
    case isTrue hp => exact .inl ⟨hp, (Option.some.inj h).symm⟩
    case isFalse =>
      split at h
      case isTrue hs => exact .inr ⟨hs, (Option.some.inj h).symm⟩
      case isFalse => cases h

theorem reads_verbatim : Reads some Verbatim := by
  intro text meant
  simp [Verbatim]

theorem resolved_getD {name : Bytes} (hn : Bytes.beforeNul name = name) (hne : name ≠ [])
    (env : Environment) (default : Bytes) :
    Resolved (env.lookup? name) Verbatim default (env.getD name default) := by
  have h := reads_verbatim.resolved hn hne env default
  rwa [Option.bind_fun_some] at h

/-- Different words are written differently. -/
theorem severity_unique : ∀ entry ∈ Lsp.Severity.words, ∀ entry' ∈ Lsp.Severity.words,
    ascii entry.1 = ascii entry'.1 → entry.2 = entry'.2 := by decide

theorem reads_severity : Reads Lsp.Severity.ofName? IsSeverity := by
  intro text severity
  simp only [IsSeverity, Lsp.Severity.ofName?, Option.map_eq_some_iff]
  constructor
  · rintro ⟨word, hw, he⟩
    refine ⟨?_, ?_⟩
    · rintro rfl
      exact absurd he ((by decide : ∀ entry ∈ Lsp.Severity.words, ascii entry.1 ≠ []) _ hw)
    · cases hf : Lsp.Severity.words.find? fun entry => ascii entry.1 = text.lower with
      | none => exact absurd he (by simpa using List.find?_eq_none.mp hf _ hw)
      | some entry =>
        have hentry : ascii entry.1 = text.lower := by simpa using List.find?_some hf
        exact ⟨entry, rfl, severity_unique _ (List.mem_of_find?_eq_some hf) _ hw
          (hentry.trans he.symm)⟩
  · rintro ⟨-, entry, hf, rfl⟩
    exact ⟨entry.1, List.mem_of_find?_eq_some hf, by simpa using List.find?_some hf⟩

/-- What a word makes of a switch. -/
def switch? (word : Bytes) : Option Bool :=
  if Environment.trueWords.any fun w => ascii w = word then some true
  else if Environment.falseWords.any fun w => ascii w = word then some false
  else none

theorem switch_unique : ∀ w ∈ Environment.trueWords, ∀ w' ∈ Environment.falseWords,
    ascii w ≠ ascii w' := by decide

theorem switch_ne_nil : ∀ w ∈ Environment.trueWords ++ Environment.falseWords, ascii w ≠ [] := by decide

theorem reads_switch : Reads switch? IsSwitch := by
  intro text on
  simp only [IsSwitch, switch?, List.any_eq_true, decide_eq_true_eq]
  constructor
  · rintro ⟨w, hw, rfl⟩
    cases on with
    | true =>
      have ht : w ∈ Environment.trueWords := hw
      exact ⟨switch_ne_nil w (List.mem_append_left _ ht), if_pos ⟨w, ht, rfl⟩⟩
    | false =>
      have hf : w ∈ Environment.falseWords := hw
      refine ⟨switch_ne_nil w (List.mem_append_right _ hf), ?_⟩
      rw [if_neg, if_pos ⟨w, hf, rfl⟩]
      rintro ⟨w', ht, he⟩
      exact switch_unique w' ht w hf he
  · rintro ⟨-, h⟩
    split at h
    case isTrue ht =>
      cases h
      exact ht
    case isFalse =>
      split at h
      case isTrue hf =>
        cases h
        exact hf
      case isFalse => cases h

theorem resolved_flag {name : Bytes} (hn : Bytes.beforeNul name = name) (hne : name ≠ [])
    (env : Environment) (default : Bool) :
    Resolved (env.lookup? name) IsSwitch default (env.flag name default) := by
  have hflag : env.flag name default = ((env.get? name).bind switch?).getD default := by
    cases h : env.get? name with
    | none =>
      simp only [Environment.flag, Environment.getD, h]
      rfl
    | some word =>
      simp only [Environment.flag, Environment.getD, h, Option.getD_some, Option.bind_some, switch?]
      split
      · rfl
      · split <;> rfl
  rw [hflag]
  exact reads_switch.resolved hn hne env default

theorem size?_eq_some_iff {text : Bytes} {size : UInt64} :
    size? text = some size ↔ Denotes text size.toNat := by
  rw [size?, Bytes.denotes_iff]
  constructor
  · intro h
    split at h
    case isTrue hs =>
      cases h
      exact ⟨hs.1, (UInt64.toNat_ofNat_of_lt' hs.2).symm⟩
    case isFalse => cases h
  · rintro ⟨hn, hv⟩
    rw [if_pos ⟨hn, hv ▸ size.toNat_lt⟩, hv, UInt64.ofNat_toNat]

theorem ne_nil_of_denotes {text : Bytes} {n : Nat} (h : Denotes text n) : text ≠ [] := by
  rintro rfl
  cases h.isNumeral

theorem reads_limit : Reads positiveSize? IsLimit := by
  intro text limit
  simp only [IsLimit, positiveSize?, Option.filter_eq_some_iff, size?_eq_some_iff, decide_eq_true_eq]
  constructor
  · rintro ⟨hd, hpos⟩
    exact ⟨ne_nil_of_denotes hd, hd, UInt64.lt_iff_toNat_lt.mpr hpos⟩
  · rintro ⟨-, hd, hpos⟩
    exact ⟨hd, UInt64.lt_iff_toNat_lt.mp hpos⟩

/-- The delay that is read is the size, taken as a signed word. -/
theorem reads_delay : Reads delay? fun text delay =>
    ∃ size : UInt64, Denotes text size.toNat ∧ size.toInt64 = delay := by
  intro text delay
  simp only [delay?, Option.map_eq_some_iff, size?_eq_some_iff]
  constructor
  · rintro ⟨size, hd, rfl⟩
    exact ⟨ne_nil_of_denotes hd, size, hd, rfl⟩
  · rintro ⟨-, h⟩
    exact h

theorem toInt_toInt64 (size : UInt64) :
    size.toInt64.toInt = if size.toNat < 2 ^ 63 then (size.toNat : Int) else size.toNat - 2 ^ 64 := by
  have h : size.toInt64.toInt = size.toBitVec.toInt := rfl
  rw [h, BitVec.toInt_eq_toNat_cond, UInt64.toNat_toBitVec]
  have := size.toNat_lt
  split <;> split <;> omega

/-! ### The delay -/

variable {env : Environment}

theorem resolved_size (env : Environment) :
    Resolved (delayText? env)
      (fun text delay => ∃ size : UInt64, Denotes text size.toNat ∧ size.toInt64 = delay) 300
      (load env).1.diagnostics.delay :=
  reads_delay.resolved_overlay (by decide) (by decide) env _ _

/-- A size that fits a signed word is a delay of as many milliseconds. -/
theorem isDelay_iff {text : Bytes} (h : ¬Wraps text) (delay : Int64) :
    IsDelay text delay ↔ ∃ size : UInt64, Denotes text size.toNat ∧ size.toInt64 = delay := by
  constructor
  · rintro ⟨n, hd, hn⟩
    have hlt : n < 2 ^ 63 := by have := delay.toInt_lt; omega
    have hsize : (UInt64.ofNat n).toNat = n :=
      UInt64.toNat_ofNat_of_lt' (Nat.lt_trans hlt (by decide))
    refine ⟨UInt64.ofNat n, hsize.symm ▸ hd, Int64.toInt_inj.mp ?_⟩
    rw [toInt_toInt64, hsize, if_pos hlt, hn]
  · rintro ⟨size, hd, rfl⟩
    have hlt : size.toNat < 2 ^ 63 :=
      Nat.lt_of_not_le fun hle => h ⟨size.toNat, hd, hle, size.toNat_lt⟩
    exact ⟨size.toNat, hd, by rw [toInt_toInt64, if_pos hlt]⟩

theorem resolved_delay (h : ∀ text ∈ delayText? env, ¬Wraps text) :
    Resolved (delayText? env) IsDelay 300 (load env).1.diagnostics.delay :=
  (resolved_size env).congr fun text ht => isDelay_iff (h text ht)

theorem delay_of_wraps {text : Bytes} {n : Nat} (ht : text ∈ delayText? env) (hd : Denotes text n)
    (hge : 2 ^ 63 ≤ n) (hlt : n < 2 ^ 64) :
    (load env).1.diagnostics.delay.toInt = n - 2 ^ 64 := by
  have hsize : (UInt64.ofNat n).toNat = n := UInt64.toNat_ofNat_of_lt' hlt
  rw [(resolved_size env).written text ht _ ⟨.ofNat n, hsize.symm ▸ hd, rfl⟩, toInt_toInt64, hsize,
    if_neg (Nat.not_lt.mpr hge)]

theorem not_neg_of_resolved {text? : Option Bytes} {delay : Int64}
    (h : Resolved text? IsDelay 300 delay) : ¬delay < 0 := by
  rcases h.cases with rfl | ⟨-, -, n, -, hn⟩
  · decide
  · rw [Int64.lt_iff_toInt_lt, hn]
    exact Int.not_lt.mpr (Int.natCast_nonneg n)

theorem delay_neg_iff :
    (load env).1.diagnostics.delay < 0 ↔ ∃ text ∈ delayText? env, Wraps text := by
  constructor
  · refine fun hneg => Classical.byContradiction fun hnone => ?_
    exact not_neg_of_resolved (resolved_delay fun text ht hw => hnone ⟨text, ht, hw⟩) hneg
  · rintro ⟨text, ht, n, hd, hge, hlt⟩
    rw [Int64.lt_iff_toInt_lt, delay_of_wraps ht hd hge hlt]
    have hz : (0 : Int64).toInt = 0 := by decide
    omega

/-! ### Own variables -/

theorem DependsOnlyOn.of_get? {α : Type} {names : List String} {setting : Configuration → α}
    (hnames : ∀ name ∈ names, Bytes.beforeNul (ascii name) = ascii name ∧ 61 ∉ ascii name)
    (h : ∀ other : Environment, (∀ name ∈ names, env.get? (ascii name) = other.get? (ascii name)) →
      setting (load env).1 = setting (load other).1) : DependsOnlyOn env names setting := by
  have hd (other : Environment)
      (ha : ∀ name ∈ names, env.lookup? (ascii name) = other.lookup? (ascii name)) :
      setting (load env).1 = setting (load other).1 :=
    h other fun name hn => by simp only [Environment.get?, (hnames name hn).1, ha name hn]
  exact ⟨hd, fun name value hown => hd _ fun own ho =>
    (Environment.lookup?_set_of_ne (hnames own ho).2 (hown own ho) value).symm⟩

theorem overlay_congr {α : Type} {env other : Environment} {name : String}
    (h : env.get? (ascii name) = other.get? (ascii name)) (hint : String) (read? : Bytes → Option α)
    (default : α) : overlay env name hint read? default = overlay other name hint read? default := by
  simp only [overlay, h]

theorem getD_congr {env other : Environment} {name : Bytes} (h : env.get? name = other.get? name)
    (default : Bytes) : env.getD name default = other.getD name default := by
  simp only [Environment.getD, h]

theorem flag_congr {env other : Environment} {name : Bytes} (h : env.get? name = other.get? name)
    (default : Bool) : env.flag name default = other.flag name default := by
  simp only [Environment.flag, getD_congr h]

/-! ### Main statement -/

theorem overlaid (env : Environment) : Overlaid env (load env).1 where
  transport := reads_transport.resolved_overlay (by decide) (by decide) env _ _
  pipeDirectory := ⟨defaultPipeDirectory env, resolved_getD (by decide) (by decide) env _,
    resolved_getD (by decide) (by decide) env _⟩
  logLevel := resolved_getD (by decide) (by decide) env _
  logFile := resolved_getD (by decide) (by decide) env _
  limit := reads_limit.resolved_overlay (by decide) (by decide) env _ _
  threshold := reads_severity.resolved_overlay (by decide) (by decide) env _ _
  enabled := resolved_flag (by decide) (by decide) env _
  delay := resolved_delay
  wrapped _ ht _ hd hge hlt := delay_of_wraps ht hd hge hlt
  negative := delay_neg_iff
  threads := rfl

theorem separate (env : Environment) : Separate env where
  transport := .of_get? (by decide) fun _ h =>
    congrArg Prod.fst (overlay_congr (h _ (by simp)) _ _ _)
  pipeDirectory := .of_get? (by decide) fun other h => by
    have hd : defaultPipeDirectory env = defaultPipeDirectory other := getD_congr (h "TMPDIR" (by simp)) _
    change env.getD _ (defaultPipeDirectory env) = other.getD _ (defaultPipeDirectory other)
    rw [hd, getD_congr (h "VBLS_PIPE_DIR" (by simp))]
  logLevel := .of_get? (by decide) fun _ h => getD_congr (h _ (by simp)) _
  logFile := .of_get? (by decide) fun _ h => getD_congr (h _ (by simp)) _
  limit := .of_get? (by decide) fun _ h => congrArg Prod.fst (overlay_congr (h _ (by simp)) _ _ _)
  threshold := .of_get? (by decide) fun _ h =>
    congrArg Prod.fst (overlay_congr (h _ (by simp)) _ _ _)
  enabled := .of_get? (by decide) fun _ h => flag_congr (h _ (by simp)) _
  delay := .of_get? (by decide) fun _ h => congrArg Prod.fst (overlay_congr (h _ (by simp)) _ _ _)
  threads := .of_get? (by decide) fun _ _ => rfl

theorem load_exact (env : Environment) : Overlaid env (load env).1 ∧ Separate env :=
  ⟨overlaid env, separate env⟩

/-- The least delay that does not fit a signed word. -/
def overflowing : Environment :=
  .ofPairs [(ascii "VBLS_DIAGNOSTICS_DEBOUNCE_MS", ascii "9223372036854775808")]

/-- It is neither taken as it is written nor left at the default. -/
theorem not_resolved_overflowing :
    (load overflowing).1.diagnostics.delay < 0 ∧
      ¬Resolved (delayText? overflowing) IsDelay 300 (load overflowing).1.diagnostics.delay := by
  have ht : delayText? overflowing = some (ascii "9223372036854775808") :=
    Environment.lookup?_set_self (by decide) (by decide) (by decide) (by decide)
  have hw : Wraps (ascii "9223372036854775808") :=
    ⟨2 ^ 63, Bytes.denotes_iff.mpr ⟨by decide, by decide⟩, Nat.le_refl _, by decide⟩
  have hneg : (load overflowing).1.diagnostics.delay < 0 := delay_neg_iff.mpr ⟨_, ht, hw⟩
  exact ⟨hneg, fun h => not_neg_of_resolved h hneg⟩

end Settings

end EditorSession
