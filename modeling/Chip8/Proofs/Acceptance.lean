/-
Which documents are accepted. `Config.Acceptable` says it without the reader: the numbers of the document, with the
standard ones for those it leaves out, make a valid configuration, a seed is a number or null, sections are mappings, and
choices are booleans. What stands for a section with nothing in it is left open there. It is meant to be null; the reader
takes everything that is empty or zero for it, and in a file takes it for a document with nothing in it as well. How the
text of a file becomes a document plays no part: everything is said of all documents.

- `Reader.integer_eq_ok`, `Reader.dialect_accepts`: when a number and a section of choices can be read.
- `Reader.root_accepts`: when a mapping can be read; `Reader.Refuses.root`: what the reading ends with if not.
- `acceptable_null_iff`: what comes of taking more than null for a section with nothing in it.
- `accepted_documents`: values, and documents of files; `stray_values_accepted` are accepted against what is meant.
-/
import Chip8.Proofs.Settings

namespace Chip8

open Act

/-! ## What a document says -/

namespace Value

/-- the text starts with `0x` or `0X` -/
def MarksBase16 (s : String) : Prop := ∃ x rest, s.toList = '0' :: x :: rest ∧ (x = 'x' ∨ x = 'X')

/-- the whole number that a value stands for: a number is itself, a text is the number that can be read in it -/
inductive Denotes : Value → Int → Prop
  | number (n : Int) : Denotes (.int n) n
  | base16 {s : String} {n : Int} (hmark : MarksBase16 s) (hn : Integer.parse 16 s = .ok n) : Denotes (.text s) n
  | base10 {s : String} {n : Int} (hmark : ¬ MarksBase16 s) (hn : Integer.parse 10 s = .ok n) : Denotes (.text s) n

/-- false, zero, the empty text and the empty list: empty, but neither null nor a mapping -/
def IsStray (v : Value) : Prop := v.isVoid = true ∧ v ≠ .null ∧ v ≠ .map []

end Value

namespace Config

variable {es inner : List (Value × Value)} {key : String} {ns ns' : List Notice} {Blank : Value → Prop}

/-- the number that a document says under a key, the standard one if it leaves the key out -/
def Says (es : List (Value × Value)) (key : String) (standard n : Int) : Prop :=
  match Value.get? es key with
  | none => n = standard
  | some v => v.Denotes n

/-- the entries of the section under a key; there are none if it is left out or blank -/
def SectionAs (Blank : Value → Prop) (es : List (Value × Value)) (key : String) (inner : List (Value × Value)) : Prop :=
  match Value.get? es key with
  | none => inner = []
  | some v => v = .map inner ∨ (Blank v ∧ inner = [])

/-- every choice in a section is a boolean -/
def ChoicesMade (inner : List (Value × Value)) : Prop := ∀ f ∈ choices, ∀ v, (.text f.1, v) ∈ inner → ∃ on, v = .bool on

/-- what makes a document acceptable, given what is blank in the place of a section -/
structure Acceptable (Blank : Value → Prop) (es : List (Value × Value)) : Prop where
  /-- the numbers it says make a valid configuration -/
  valid : ∃ c : Config, c.Valid ∧ (∀ f ∈ numbers, Says es f.1 (f.2 {}) (f.2 c)) ∧
    ∃ inner, SectionAs Blank es "screen" inner ∧ Says inner "width" Screen.standardWidth c.width ∧
      Says inner "height" Screen.standardHeight c.height
  seed : ∀ v, Value.get? es "seed" = some v → v = .null ∨ ∃ n, v.Denotes n
  made : ∃ inner, SectionAs Blank es "quirks" inner ∧ ChoicesMade inner

/-- the error is a refusal of something that a document says; the others are about text that is no document -/
def Error.IsRefusal : Error → Prop
  | .badNode _ | .unreadable => False
  | _ => True

/-! ## When a document can be read -/

namespace Reader

theorem integerOfText_of_mark {s : String} (h : Value.MarksBase16 s) : integerOfText s = Integer.parse 16 s := by
  obtain ⟨x, rest, hs, hx⟩ := h
  unfold integerOfText
  rw [hs]
  exact if_pos hx

theorem integerOfText_of_no_mark {s : String} (h : ¬ Value.MarksBase16 s) : integerOfText s = Integer.parse 10 s := by
  unfold integerOfText
  split
  · rename_i x rest hs
    exact if_neg fun hx => h ⟨x, rest, hs, hx⟩
  · rfl

/-- the reader takes a value for a number if it stands for that number -/
theorem integer_eq_ok {v : Value} {n : Int} : integer v = .ok n ↔ v.Denotes n := by
  constructor
  · intro h
    cases v with
    | int m =>
      cases h
      exact .number n
    | text s =>
      have hs : integerOfText s = .ok n := mapError_eq_ok.1 h
      by_cases hmark : Value.MarksBase16 s
      · rw [integerOfText_of_mark hmark] at hs
        exact .base16 hmark hs
      · rw [integerOfText_of_no_mark hmark] at hs
        exact .base10 hmark hs
    | _ => cases h
  · intro h
    cases h with
    | number => rfl
    | base16 hmark hs => exact mapError_eq_ok.2 ((integerOfText_of_mark hmark).trans hs)
    | base10 hmark hs => exact mapError_eq_ok.2 ((integerOfText_of_no_mark hmark).trans hs)

theorem integerAt_eq_ok {standard n : Int} :
    integerAt es key standard ns = .ok n ns' ↔ Says es key standard n ∧ ns' = ns := by
  unfold integerAt Says
  cases Value.get? es key with
  | none => simp [pure_apply, eq_comm]
  | some v =>
    dsimp only
    rw [ofExcept_eq_ok, integer_eq_ok]

theorem optionalIntegerAt_accepts :
    (∃ seed ns', optionalIntegerAt es key ns = .ok seed ns') ↔
      ∀ v, Value.get? es key = some v → v = .null ∨ ∃ n, v.Denotes n := by
  constructor
  · rintro ⟨seed, ns', h⟩ v hv
    have hgiven := (given_of_optionalIntegerAt h).1
    unfold GivenSeed at hgiven
    rw [hv] at hgiven
    by_cases hnull : v = .null
    · exact .inl hnull
    · simp only at hgiven
      obtain ⟨n, hn, -⟩ := hgiven
      exact .inr ⟨n, integer_eq_ok.1 hn⟩
  · intro h
    unfold optionalIntegerAt
    cases hv : Value.get? es key with
    | none => exact ⟨none, ns, rfl⟩
    | some v =>
      rcases h v hv with rfl | ⟨n, hn⟩
      · exact ⟨none, ns, rfl⟩
      · have hread : (do return some (← ofExcept (integer v)) : Reader (Option Int)) ns = .ok (some n) ns :=
          bind_eq_ok.2 ⟨n, ns, ofExcept_eq_ok.2 ⟨integer_eq_ok.2 hn, rfl⟩, rfl⟩
        cases hn <;> exact ⟨some n, ns, hread⟩

/-- a section that is read is a mapping, or there is something empty in its place -/
theorem sectionAt_eq_ok :
    sectionAt es key ns = .ok inner ns' ↔ SectionAs (fun v => v.isVoid = true) es key inner ∧ ns' = ns := by
  unfold sectionAt SectionAs
  cases Value.get? es key with
  | none => simp [pure_apply, eq_comm]
  | some v =>
    dsimp only
    by_cases hvoid : v.isVoid = true
    · rw [if_pos hvoid, pure_apply]
      constructor
      · intro h
        cases h
        exact ⟨.inr ⟨hvoid, rfl⟩, rfl⟩
      · rintro ⟨rfl | ⟨-, rfl⟩, rfl⟩
        · rw [List.isEmpty_iff.1 hvoid]
        · rfl
    · rw [if_neg hvoid]
      constructor
      · intro h
        cases v with
        | map entries =>
          cases h
          exact ⟨.inl rfl, rfl⟩
        | _ => cases h
      · rintro ⟨rfl | ⟨hv, -⟩, rfl⟩
        · rfl
        · exact absurd hv hvoid

theorem choicesMade_cons {k v : Value} :
    ChoicesMade ((k, v) :: es) ↔ (∀ f ∈ choices, k = .text f.1 → ∃ on, v = .bool on) ∧ ChoicesMade es := by
  constructor
  · intro h
    refine ⟨fun f hf hk => h f hf v ?_, fun f hf w hw => h f hf w (List.mem_cons_of_mem _ hw)⟩
    rw [hk]
    exact List.mem_cons_self
  · rintro ⟨hfirst, hrest⟩ f hf w hw
    rcases List.mem_cons.1 hw with heq | hw
    · cases heq
      exact hfirst f hf rfl
    · exact hrest f hf w hw

/-- a section is read if every entry that names a choice is a boolean. The induction is on the entries -/
theorem dialect_accepts {d : Dialect} : (∃ d' ns', dialect d es ns = .ok d' ns') ↔ ChoicesMade es := by
  induction es generalizing d ns with
  | nil => exact iff_of_true ⟨d, ns, rfl⟩ (by rintro f - v hv; cases hv)
  | cons e es ih =>
    obtain ⟨k, v⟩ := e
    rw [choicesMade_cons]
    cases hchoice : choice? d k with
    | none =>
      rw [dialect_of_no_choice hchoice]
      have hrest : ChoicesMade es ↔ ∃ d' ns', dialect d es (ns ++ [.unknownChoice k.shown.toOption]) = .ok d' ns' :=
        ih.symm
      rw [hrest, and_iff_right fun f hf hk => absurd hk (ne_of_no_choice hchoice hf)]
      rfl
    | some choose =>
      obtain ⟨f, hf, hk, -⟩ := choice?_eq_some hchoice
      constructor
      · rintro ⟨d', ns', h⟩
        obtain ⟨on, rfl⟩ := exists_bool_of_dialect hchoice h
        rw [dialect_of_choice hchoice] at h
        exact ⟨fun _ _ _ => ⟨on, rfl⟩, ih.1 ⟨d', ns', h⟩⟩
      · rintro ⟨hfirst, hrest⟩
        obtain ⟨on, rfl⟩ := hfirst f hf hk
        rw [dialect_of_choice hchoice]
        exact ih.2 hrest

theorem exists_reportUnknown (es : List (Value × Value)) (ns : List Notice) :
    ∃ ns', reportUnknown es ns = .ok () ns' := by
  unfold reportUnknown
  exact ⟨_, forM_report_apply _ _ ns⟩

/-- **A mapping is read if and only if it is acceptable**, where everything empty or zero passes for a section with
nothing in it. -/
theorem root_accepts :
    (∃ c ns', root es ns = .ok c ns') ↔ Acceptable (fun v => v.isVoid = true) es := by
  constructor
  · rintro ⟨c, ns', h⟩
    have hvalid := valid_of_root h
    unfold root at h
    simp only [bind_eq_ok, ofExcept_eq_ok, integerAt_eq_ok, sectionAt_eq_ok] at h
    obtain ⟨-, _, -, memorySize, _, ⟨hmemory, rfl⟩, programStart, _, ⟨hprogram, rfl⟩, fontStart, _, ⟨hfont, rfl⟩, cpuHz, _,
      ⟨hcpu, rfl⟩, timerHz, _, ⟨htimer, rfl⟩, seed, _, hseed, screen, _, ⟨hscreen, rfl⟩, width, _, ⟨hwidth, rfl⟩, height,
      _, ⟨hheight, rfl⟩, quirks, _, ⟨hsection, rfl⟩, dialect, _, hdialect, ⟨⟩, _, -, h⟩ := h
    cases h
    refine ⟨⟨_, hvalid, ?_, screen, hscreen, hwidth, hheight⟩, optionalIntegerAt_accepts.1 ⟨seed, _, hseed⟩,
      quirks, hsection, dialect_accepts.1 ⟨dialect, _, hdialect⟩⟩
    intro f hf
    simp only [numbers, List.mem_cons, List.not_mem_nil, or_false] at hf
    obtain rfl | rfl | rfl | rfl | rfl := hf
    · exact hmemory
    · exact hprogram
    · exact hfont
    · exact hcpu
    · exact htimer
  · rintro ⟨⟨c, hvalid, hnumbers, screen, hscreen, hwidth, hheight⟩, hseed, quirks, hquirks, hmade⟩
    obtain ⟨ns₁, hreport⟩ := exists_reportUnknown es ns
    obtain ⟨seed, ns₂, hread⟩ := optionalIntegerAt_accepts.2 hseed
    obtain ⟨dialect, ns₃, hdialect⟩ := dialect_accepts.2 hmade
    have hnumber {f : String × (Config → Int)} (hf : f ∈ numbers) {ms : List Notice} :
        integerAt es f.1 (f.2 {}) ms = .ok (f.2 c) ms := integerAt_eq_ok.2 ⟨hnumbers f hf, rfl⟩
    let made : Config := { c with seed := seed, dialect := dialect }
    have hcheck : made.validate = .ok () := (validate_eq_ok made).2
      ⟨hvalid.memory_pos, hvalid.program_nonneg, hvalid.program_lt, hvalid.font_nonneg, hvalid.font_le, hvalid.cpu_pos,
        hvalid.timer_pos, hvalid.width_pos, hvalid.height_pos⟩
    refine ⟨made, ns₃, ?_⟩
    unfold root
    refine bind_eq_ok.2 ⟨(), ns₁, hreport, ?_⟩
    refine bind_eq_ok.2 ⟨_, _, hnumber (f := ("memory_size", memorySize)) (by simp [numbers]), ?_⟩
    refine bind_eq_ok.2 ⟨_, _, hnumber (f := ("program_start", programStart)) (by simp [numbers]), ?_⟩
    refine bind_eq_ok.2 ⟨_, _, hnumber (f := ("font_start", fontStart)) (by simp [numbers]), ?_⟩
    refine bind_eq_ok.2 ⟨_, _, hnumber (f := ("cpu_hz", cpuHz)) (by simp [numbers]), ?_⟩
    refine bind_eq_ok.2 ⟨_, _, hnumber (f := ("timer_hz", timerHz)) (by simp [numbers]), ?_⟩
    refine bind_eq_ok.2 ⟨_, _, hread, ?_⟩
    refine bind_eq_ok.2 ⟨_, _, sectionAt_eq_ok.2 ⟨hscreen, rfl⟩, ?_⟩
    refine bind_eq_ok.2 ⟨_, _, integerAt_eq_ok.2 ⟨hwidth, rfl⟩, ?_⟩
    refine bind_eq_ok.2 ⟨_, _, integerAt_eq_ok.2 ⟨hheight, rfl⟩, ?_⟩
    refine bind_eq_ok.2 ⟨_, _, sectionAt_eq_ok.2 ⟨hquirks, rfl⟩, ?_⟩
    refine bind_eq_ok.2 ⟨_, _, hdialect, ?_⟩
    exact bind_eq_ok.2 ⟨_, _, ofExcept_eq_ok.2 ⟨hcheck, rfl⟩, rfl⟩

/-! ## What ends a reading -/

/-- a reading step that ends with nothing but refusals -/
def Refuses {α : Type} (a : Reader α) : Prop := ∀ ns e ns', a ns = .error e ns' → e.IsRefusal

namespace Refuses

variable {α β : Type}

theorem pure (r : α) : Refuses (pure r) := nofun

theorem throw {e : Error} (h : e.IsRefusal) : Refuses (throw e : Reader α) := by
  intro ns e' ns' hthrow
  cases hthrow
  exact h

theorem ofExcept {r : Except Error α} (h : ∀ e, r = .error e → e.IsRefusal) : Refuses (ofExcept r) := by
  cases r with
  | ok r => exact pure r
  | error e => exact throw (h e rfl)

theorem bind {a : Reader α} {k : α → Reader β} (ha : Refuses a) (hk : ∀ r, Refuses (k r)) : Refuses (a >>= k) := by
  intro ns e ns' h
  rcases bind_eq_error.1 h with hfirst | ⟨r, ms, -, hsecond⟩
  · exact ha ns e ns' hfirst
  · exact hk r ms e ns' hsecond

theorem report (n : Notice) : Refuses (report n) := nofun

/-- a number that cannot be read or shown is a refusal -/
theorem badInteger {r : Except Integer.Error α} {e : Error} (h : r.mapError .badInteger = .error e) : e.IsRefusal := by
  cases r with
  | ok r => cases h
  | error cause =>
    cases h
    trivial

theorem integer {v : Value} {e : Error} (h : integer v = .error e) : e.IsRefusal := by
  cases v with
  | int n => cases h
  | text s => exact badInteger h
  | _ =>
    cases h
    trivial

theorem validate {c : Config} {e : Error} (h : c.validate = .error e) : e.IsRefusal := by
  unfold Config.validate at h
  split_ifs at h <;> cases h <;> trivial

theorem integerAt (es : List (Value × Value)) (key : String) (standard : Int) :
    Refuses (integerAt es key standard) := by
  unfold Reader.integerAt
  cases Value.get? es key with
  | none => exact pure standard
  | some v => exact ofExcept fun e => integer

theorem optionalIntegerAt (es : List (Value × Value)) (key : String) : Refuses (optionalIntegerAt es key) := by
  unfold Reader.optionalIntegerAt
  split
  · exact pure none
  · exact pure none
  · exact (ofExcept fun e => integer).bind fun n => pure (some n)

theorem sectionAt (es : List (Value × Value)) (key : String) : Refuses (sectionAt es key) := by
  unfold Reader.sectionAt
  split
  · exact pure []
  · split_ifs
    · exact pure []
    · split
      · exact pure _
      · exact throw trivial

theorem dialect (d : Dialect) (es : List (Value × Value)) : Refuses (dialect d es) := by
  induction es generalizing d with
  | nil => exact pure d
  | cons e es ih =>
    obtain ⟨k, v⟩ := e
    unfold Reader.dialect
    split
    · exact ih _
    · exact (ofExcept fun e => badInteger).bind fun _ => throw trivial
    · exact (report _).bind fun _ => ih d

theorem root (es : List (Value × Value)) : Refuses (root es) := by
  have hreport : Refuses (reportUnknown es) := by
    intro ns e ns' h
    obtain ⟨ms, hok⟩ := exists_reportUnknown es ns
    rw [hok] at h
    cases h
  unfold Reader.root
  refine hreport.bind fun _ => ?_
  refine (integerAt es "memory_size" _).bind fun memorySize => ?_
  refine (integerAt es "program_start" _).bind fun programStart => ?_
  refine (integerAt es "font_start" _).bind fun fontStart => ?_
  refine (integerAt es "cpu_hz" _).bind fun cpuHz => ?_
  refine (integerAt es "timer_hz" _).bind fun timerHz => ?_
  refine (optionalIntegerAt es "seed").bind fun seed => ?_
  refine (sectionAt es "screen").bind fun screen => ?_
  refine (integerAt screen "width" _).bind fun width => ?_
  refine (integerAt screen "height" _).bind fun height => ?_
  refine (sectionAt es "quirks").bind fun quirks => ?_
  refine (dialect {} quirks).bind fun dialect => ?_
  exact (ofExcept fun e => validate).bind fun _ => pure _

end Refuses

end Reader

/-! ## What is empty -/

def sectionKeys : List String := ["screen", "quirks"]

/-- a section is a mapping, null or left out if it is a mapping, left out or empty and not stray -/
theorem sectionAs_null_iff :
    SectionAs (fun v => v = .null) es key inner ↔
      SectionAs (fun v => v.isVoid = true) es key inner ∧ ∀ v, Value.get? es key = some v → ¬ v.IsStray := by
  unfold SectionAs
  cases Value.get? es key with
  | none => simp
  | some v =>
    simp only [Option.some.injEq, forall_eq']
    constructor
    · rintro (rfl | ⟨rfl, rfl⟩)
      · refine ⟨.inl rfl, ?_⟩
        rintro ⟨hvoid, -, hne⟩
        exact hne (congrArg Value.map (List.isEmpty_iff.1 hvoid))
      · exact ⟨.inr ⟨rfl, rfl⟩, fun hstray => hstray.2.1 rfl⟩
    · rintro ⟨rfl | ⟨hvoid, rfl⟩, hstray⟩
      · exact .inl rfl
      · by_cases hnull : v = .null
        · exact .inr ⟨hnull, rfl⟩
        · by_cases hmap : v = .map []
          · exact .inl hmap
          · exact absurd ⟨hvoid, hnull, hmap⟩ hstray

/-- what is meant to be accepted is what is accepted and has nothing stray in the place of a section -/
theorem acceptable_null_iff :
    Acceptable (fun v => v = .null) es ↔
      Acceptable (fun v => v.isVoid = true) es ∧
        ∀ key ∈ sectionKeys, ∀ v, Value.get? es key = some v → ¬ v.IsStray := by
  constructor
  · rintro ⟨⟨c, hvalid, hnumbers, screen, hscreen, hsizes⟩, hseed, quirks, hquirks, hmade⟩
    obtain ⟨hscreen, hscreen'⟩ := sectionAs_null_iff.1 hscreen
    obtain ⟨hquirks, hquirks'⟩ := sectionAs_null_iff.1 hquirks
    refine ⟨⟨⟨c, hvalid, hnumbers, screen, hscreen, hsizes⟩, hseed, quirks, hquirks, hmade⟩, fun key hkey => ?_⟩
    simp only [sectionKeys, List.mem_cons, List.not_mem_nil, or_false] at hkey
    rcases hkey with rfl | rfl
    · exact hscreen'
    · exact hquirks'
  · rintro ⟨⟨⟨c, hvalid, hnumbers, screen, hscreen, hsizes⟩, hseed, quirks, hquirks, hmade⟩, hstray⟩
    have hnull {key : String} (hkey : key ∈ sectionKeys) {inner : List (Value × Value)}
        (h : SectionAs (fun v => v.isVoid = true) es key inner) : SectionAs (fun v => v = .null) es key inner :=
      sectionAs_null_iff.2 ⟨h, hstray key hkey⟩
    exact ⟨⟨c, hvalid, hnumbers, screen, hnull (by simp [sectionKeys]) hscreen, hsizes⟩, hseed, quirks,
      hnull (by simp [sectionKeys]) hquirks, hmade⟩

/-! ## Documents -/

theorem ofValue_accepts {v : Value} :
    (∃ c, (ofValue v).1 = .ok c) ↔ ∃ es, v = .map es ∧ Acceptable (fun v => v.isVoid = true) es := by
  cases v with
  | map es =>
    have hroot : (∃ c, (ofValue (.map es)).1 = .ok c) ↔ ∃ c ns, Reader.root es [] = .ok c ns := by
      rw [ofValue_map]
      cases Reader.root es [] with
      | ok c ns => simp
      | error e ns => simp
    rw [hroot, Reader.root_accepts]
    simp
  | _ => simp [ofValue, Reader.entries]

theorem isRefusal_of_ofValue {v : Value} {e : Error} (h : (ofValue v).1 = .error e) : e.IsRefusal := by
  cases v with
  | map es =>
    rw [ofValue_map] at h
    cases hroot : Reader.root es [] with
    | ok c ns =>
      rw [hroot] at h
      cases h
    | error e' ns =>
      rw [hroot] at h
      cases h
      exact Reader.Refuses.root es [] e ns hroot
  | _ =>
    cases h
    trivial

/-- with nothing in it, a document is a configuration of standard values -/
theorem ofValue_nil : (ofValue (.map [])).1 = .ok {} := rfl

/-- a stray value is no mapping -/
theorem exists_error_of_isStray {v : Value} (h : v.IsStray) : ∃ e, (ofValue v).1 = .error e := by
  cases v with
  | map es =>
    obtain ⟨hvoid, -, hne⟩ := h
    exact absurd (congrArg Value.map (List.isEmpty_iff.1 hvoid)) hne
  | _ => exact ⟨_, rfl⟩

end Config

open Config in
/-- **Documents are accepted if and only if they are acceptable, and refused otherwise.** That holds of the document in a
file as well, whatever it is, where null counts as an empty mapping. But more than null counts as nothing: false, zero,
an empty text and an empty list do too, in the place of a section and in the place of a document in a file. A value as a
whole is refused if it is one of these. -/
theorem accepted_documents (v : Value) :
    ((∃ c, (ofValue v).1 = .ok c) ↔ ∃ es, v = .map es ∧ Acceptable (fun v => v.isVoid = true) es) ∧
    (∀ e, (ofValue v).1 = .error e → e.IsRefusal) ∧
    (∀ es, Acceptable (fun v => v = .null) es ↔
      Acceptable (fun v => v.isVoid = true) es ∧
        ∀ key ∈ sectionKeys, ∀ w, Value.get? es key = some w → ¬ w.IsStray) ∧
    (¬ v.IsStray → ((∃ c, (ofDocument v).1 = .ok c) ↔ v = .null ∨ ∃ c, (ofValue v).1 = .ok c)) ∧
    (v.IsStray → (ofDocument v).1 = .ok {} ∧ ∃ e, (ofValue v).1 = .error e) ∧
    ∀ e, (ofDocument v).1 = .error e → e.IsRefusal := by
  refine ⟨ofValue_accepts, fun e => isRefusal_of_ofValue, fun es => acceptable_null_iff, fun hstray => ?_,
    fun hstray => ?_, fun e => isRefusal_of_ofValue⟩
  · unfold ofDocument
    by_cases hvoid : v.isVoid = true
    · rw [if_pos hvoid]
      refine iff_of_true ⟨{}, ofValue_nil⟩ ?_
      by_cases hnull : v = .null
      · exact .inl hnull
      · have hmap : v = .map [] := by
          by_contra hne
          exact hstray ⟨hvoid, hnull, hne⟩
        rw [hmap]
        exact .inr ⟨{}, ofValue_nil⟩
    · have hnull : v ≠ .null := by
        rintro rfl
        exact hvoid rfl
      rw [if_neg hvoid, or_iff_right hnull]
  · unfold ofDocument
    rw [if_pos hstray.1]
    exact ⟨ofValue_nil, exists_error_of_isStray hstray⟩

/-- a document with keys that mean nothing, by itself and in a file, and an empty list, which only a file may hold -/
theorem remarked_document_acceptable :
    Config.Acceptable (fun v => v = .null) Config.remarkedDocument ∧
    (∃ c, (Config.ofDocument (.map Config.remarkedDocument)).1 = .ok c) ∧
    (Config.ofDocument (.list [])).1 = .ok {} ∧ ∃ e, (Config.ofValue (.list [])).1 = .error e ∧ e.IsRefusal := by
  obtain ⟨haccepts, -, hnull, hplain, -⟩ := accepted_documents (.map Config.remarkedDocument)
  obtain ⟨-, hrefused, -, -, hstray, -⟩ := accepted_documents (.list [])
  obtain ⟨hfile, e, he⟩ := hstray ⟨rfl, nofun, nofun⟩
  refine ⟨(hnull _).2 ⟨?_, ?_⟩, ?_, hfile, e, he, hrefused e he⟩
  · obtain ⟨es, hes, hacceptable⟩ := haccepts.1 ⟨.narrow, rfl⟩
    cases hes
    exact hacceptable
  · intro key hkey v hv
    simp only [Config.sectionKeys, List.mem_cons, List.not_mem_nil, or_false] at hkey
    rcases hkey with rfl | rfl
    all_goals
      cases hv
      rintro ⟨hvoid, -⟩
      cases hvoid
  · have hmapping : ¬ (Value.map Config.remarkedDocument).IsStray := by
      rintro ⟨hvoid, -⟩
      cases hvoid
    exact (hplain hmapping).2 (.inr ⟨.narrow, rfl⟩)

/-- zero passes for a section with nothing in it, and an empty list in a file for a document with nothing in it -/
theorem stray_values_accepted :
    ((Config.ofValue (.map [(.text "screen", .int 0)])).1 = .ok {} ∧
      ¬ Config.Acceptable (fun v => v = .null) [(.text "screen", .int 0)]) ∧
    (Config.ofDocument (.list [])).1 = .ok {} ∧
      (Config.ofValue (.list [])).1 = .error (.rootNotMapping (.list [])) := by
  refine ⟨⟨rfl, fun h => ?_⟩, rfl, rfl⟩
  have hscreen : ¬ (Value.int 0).IsStray := (Config.acceptable_null_iff.1 h).2 "screen" (by decide) (.int 0) rfl
  exact hscreen ⟨rfl, nofun, nofun⟩

end Chip8
