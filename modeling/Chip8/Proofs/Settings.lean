/-
What an accepted document means. Every setting has the value that is given for it or the standard one, and keys that
mean nothing make no difference: `Config.essence` leaves them out of a document, and what is read from a document is what
is read from its essence. From what is accepted a machine can be built, unless its memory or screen has more cells than
can be numbered.

- `Given`, `SectionOf`: what a document says about a number and about a section.
- `dialect_reads`: the choices of a section.
- `agree_essence`: reading a document and its essence.
- `accepted_settings`: all of this, and the machine.
-/
import Chip8.Proofs.PowerOn

namespace Chip8

open Act

/-! ## Keys -/

namespace Value

def isKeyOf (keys : List String) : Value → Bool
  | text s => keys.contains s
  | _ => false

/-- the entries of a mapping under these keys -/
def restrict (keys : List String) (es : List (Value × Value)) : List (Value × Value) := es.filter fun e => isKeyOf keys e.1

/-- a mapping names every key once -/
def NoRepeats (es : List (Value × Value)) : Prop := es.Pairwise fun e f => sameKey e.1 f.1 = false

variable {keys : List String} {key : String} {es : List (Value × Value)}

/-- nothing but a text is the same key as a text -/
theorem sameKey_text {v : Value} : sameKey v (.text key) = true ↔ v = .text key := by
  constructor
  · intro h
    cases v with
    | text s => rw [sameKey, beq_iff_eq] at h; rw [h]
    | _ => simp [sameKey, number?] at h
  · rintro rfl
    rw [sameKey, beq_self_eq_true]

theorem get?_cons_self (v : Value) : get? ((.text key, v) :: es) key = some v := by
  have hsame : sameKey (.text key) (.text key) = true := sameKey_text.2 rfl
  rw [get?, List.find?_cons]
  simp only [hsame, Option.map_some]

theorem get?_cons_of_ne {k : Value} (hk : k ≠ .text key) (v : Value) : get? ((k, v) :: es) key = get? es key := by
  have hsame : sameKey k (.text key) = false := eq_false_of_ne_true fun h => hk (sameKey_text.1 h)
  rw [get?, List.find?_cons]
  simp only [hsame]
  rfl

/-- a key that the others differ from is not among them -/
theorem get?_eq_none (h : ∀ e ∈ es, sameKey (.text key) e.1 = false) : get? es key = none := by
  rw [get?, Option.map_eq_none_iff, List.find?_eq_none]
  intro e he hsame
  have hdiffer := h e he
  rw [sameKey_text.1 hsame, sameKey_text.2 rfl] at hdiffer
  cases hdiffer

theorem exists_text_of_isKeyOf {k : Value} (h : isKeyOf keys k = true) : ∃ s ∈ keys, k = .text s := by
  cases k with
  | text s => exact ⟨s, List.contains_iff_mem.1 h, rfl⟩
  | _ => cases h

theorem restrict_cons_of_pos {k : Value} (h : isKeyOf keys k = true) (v : Value) :
    restrict keys ((k, v) :: es) = (k, v) :: restrict keys es := List.filter_cons_of_pos h

theorem restrict_cons_of_neg {k : Value} (h : ¬ isKeyOf keys k = true) (v : Value) :
    restrict keys ((k, v) :: es) = restrict keys es := List.filter_cons_of_neg h

theorem get?_restrict (h : key ∈ keys) (es : List (Value × Value)) : get? (restrict keys es) key = get? es key := by
  have hkey (e : Value × Value) :
      decide (isKeyOf keys e.1 = true ∧ e.1.sameKey (.text key) = true) = e.1.sameKey (.text key) := by
    rw [Bool.decide_and, Bool.decide_eq_true, Bool.decide_eq_true]
    cases hsame : e.1.sameKey (.text key) with
    | false => rw [Bool.and_false]
    | true =>
      rw [sameKey_text.1 hsame, isKeyOf, List.contains_iff_mem.2 h]
      rfl
  unfold get? restrict
  rw [List.find?_filter]
  simp only [hkey]

end Value

/-! ## What is read -/

namespace Config

variable {es : List (Value × Value)} {key : String} {ns ns' : List Notice}

/-- a number is the one given under a key, or the standard one if the key is left out -/
def Given (es : List (Value × Value)) (key : String) (standard n : Int) : Prop :=
  match Value.get? es key with
  | none => n = standard
  | some v => Reader.integer v = .ok n

/-- the entries of the section under a key: there are none if it is left out, null, false, zero or empty -/
def SectionOf (es : List (Value × Value)) (key : String) (inner : List (Value × Value)) : Prop :=
  match Value.get? es key with
  | none => inner = []
  | some v => if v.isVoid then inner = [] else v = .map inner

/-- the numbers at the root of a document, by key -/
def numbers : List (String × (Config → Int)) :=
  [("memory_size", memorySize), ("program_start", programStart), ("font_start", fontStart), ("cpu_hz", cpuHz),
    ("timer_hz", timerHz)]

/-- the choices of a dialect, by key -/
def choices : List (String × (Dialect → Bool)) :=
  [("shift_uses_vy", Dialect.shiftReadsVy), ("load_store_increments_i", Dialect.transferAdvancesI),
    ("jump_uses_vx", Dialect.jumpAddsVx), ("logic_resets_vf", Dialect.logicClearsFlag),
    ("clip_sprites", Dialect.spritesClip)]

/-- a seed is the number given under a key; there is none if the key is left out or null -/
def GivenSeed (es : List (Value × Value)) (key : String) (seed : Option Int) : Prop :=
  match Value.get? es key with
  | none | some .null => seed = none
  | some v => ∃ n, Reader.integer v = .ok n ∧ seed = some n

/-- a choice is the one made under a key, or the standard one if the key is left out -/
def Chosen (es : List (Value × Value)) (key : String) (standard on : Bool) : Prop :=
  match Value.get? es key with
  | none => on = standard
  | some v => v = .bool on

namespace Reader

theorem given_of_integerAt {standard n : Int} (h : integerAt es key standard ns = .ok n ns') :
    Given es key standard n := by
  unfold integerAt at h
  unfold Given
  cases hv : Value.get? es key with
  | none =>
    rw [hv] at h
    cases h
    rfl
  | some v =>
    rw [hv] at h
    exact (ofExcept_eq_ok.1 h).1

/-- reading a number that may be left out gives what there is, and reports nothing -/
theorem given_of_optionalIntegerAt {seed : Option Int} (h : optionalIntegerAt es key ns = .ok seed ns') :
    GivenSeed es key seed ∧ ns' = ns := by
  unfold optionalIntegerAt at h
  unfold GivenSeed
  cases hv : Value.get? es key with
  | none =>
    rw [hv] at h
    cases h
    exact ⟨rfl, rfl⟩
  | some v =>
    rw [hv] at h
    cases v with
    | null =>
      cases h
      exact ⟨rfl, rfl⟩
    | _ =>
      obtain ⟨n, ms, hn, hseed⟩ := bind_eq_ok.1 h
      cases hseed
      exact ⟨⟨n, (ofExcept_eq_ok.1 hn).1, rfl⟩, (ofExcept_eq_ok.1 hn).2⟩

theorem eq_map_of_entries {v : Value} {inner : List (Value × Value)} (h : entries v = some inner) : v = .map inner := by
  cases v with
  | map entries =>
    cases h
    rfl
  | _ => cases h

theorem section_of_sectionAt {inner : List (Value × Value)} (h : sectionAt es key ns = .ok inner ns') :
    SectionOf es key inner := by
  unfold sectionAt at h
  unfold SectionOf
  cases hv : Value.get? es key with
  | none =>
    rw [hv] at h
    cases h
    rfl
  | some v =>
    rw [hv] at h
    by_cases hvoid : v.isVoid = true
    · simp only [if_pos hvoid] at h ⊢
      cases h
      rfl
    · simp only [if_neg hvoid] at h ⊢
      cases v with
      | map entries =>
        cases h
        rfl
      | _ => cases h

/-- a key that names a choice names one of the five, makes that one and leaves the others -/
theorem choice?_eq_some {d : Dialect} {k : Value} {choose : Bool → Dialect} (h : choice? d k = some choose) :
    ∃ f ∈ choices, k = .text f.1 ∧ ∀ on, f.2 (choose on) = on ∧
      ∀ g ∈ choices, g.1 ≠ f.1 → g.2 (choose on) = g.2 d := by
  unfold choice? at h
  split at h
  · cases h
    exact ⟨("shift_uses_vy", Dialect.shiftReadsVy), by simp [choices], rfl, fun on => ⟨rfl, by simp [choices]⟩⟩
  · cases h
    exact ⟨("load_store_increments_i", Dialect.transferAdvancesI), by simp [choices], rfl,
      fun on => ⟨rfl, by simp [choices]⟩⟩
  · cases h
    exact ⟨("jump_uses_vx", Dialect.jumpAddsVx), by simp [choices], rfl, fun on => ⟨rfl, by simp [choices]⟩⟩
  · cases h
    exact ⟨("logic_resets_vf", Dialect.logicClearsFlag), by simp [choices], rfl, fun on => ⟨rfl, by simp [choices]⟩⟩
  · cases h
    exact ⟨("clip_sprites", Dialect.spritesClip), by simp [choices], rfl, fun on => ⟨rfl, by simp [choices]⟩⟩
  · cases h

theorem eq_of_key {f g : String × (Dialect → Bool)} (hf : f ∈ choices) (hg : g ∈ choices) (h : f.1 = g.1) : f = g := by
  have hkeys : (choices.map Prod.fst).Nodup := by decide
  exact List.inj_on_of_nodup_map hkeys hf hg h

/-- a key that names no choice is none of theirs -/
theorem ne_of_no_choice {d : Dialect} {k : Value} (h : choice? d k = none) {f : String × (Dialect → Bool)}
    (hf : f ∈ choices) : k ≠ .text f.1 := by
  rintro rfl
  simp only [choices, List.mem_cons, List.not_mem_nil, or_false] at hf
  obtain rfl | rfl | rfl | rfl | rfl := hf <;> cases h

/-- the keys that name a choice are the five -/
theorem isKeyOf_of_choice {d : Dialect} {k : Value} {choose : Bool → Dialect} (h : choice? d k = some choose) :
    Value.isKeyOf (choices.map Prod.fst) k = true := by
  obtain ⟨f, hf, rfl, -⟩ := choice?_eq_some h
  exact List.contains_iff_mem.2 (List.mem_map_of_mem hf)

theorem isKeyOf_of_no_choice {d : Dialect} {k : Value} (h : choice? d k = none) :
    Value.isKeyOf (choices.map Prod.fst) k = false := by
  refine eq_false_of_ne_true fun hkey => ?_
  obtain ⟨s, hs, rfl⟩ := Value.exists_text_of_isKeyOf hkey
  obtain ⟨f, hf, rfl⟩ := List.mem_map.1 hs
  exact ne_of_no_choice h hf rfl

/-- a choice is made and the rest is read -/
theorem dialect_of_choice {d : Dialect} {k : Value} {choose : Bool → Dialect} (h : choice? d k = some choose) (on : Bool)
    (es : List (Value × Value)) : dialect d ((k, .bool on) :: es) = dialect (choose on) es := by
  simp only [dialect, h]

/-- a key that names no choice is reported and the rest is read -/
theorem dialect_of_no_choice {d : Dialect} {k : Value} (h : choice? d k = none) (v : Value)
    (es : List (Value × Value)) :
    dialect d ((k, v) :: es) = (do
      report (.unknownChoice k.shown.toOption)
      dialect d es) := by
  simp only [dialect, h]

/-- a choice is made with a boolean and with nothing else -/
theorem exists_bool_of_dialect {d d' : Dialect} {k v : Value} {choose : Bool → Dialect} {es : List (Value × Value)}
    (hchoice : choice? d k = some choose) (h : dialect d ((k, v) :: es) ns = .ok d' ns') : ∃ on, v = .bool on := by
  cases v with
  | bool on => exact ⟨on, rfl⟩
  | _ =>
    simp only [dialect, hchoice] at h
    obtain ⟨text, ms, -, hthrow⟩ := bind_eq_ok.1 h
    cases hthrow

/-- the choices of a section that names every key once. The induction is on the entries; each makes the choice that it
names, and no later one names that again -/
theorem dialect_reads {d d' : Dialect} {es : List (Value × Value)} (hes : Value.NoRepeats es)
    (h : dialect d es ns = .ok d' ns') {f : String × (Dialect → Bool)} (hf : f ∈ choices) :
    Chosen es f.1 (f.2 d) (f.2 d') := by
  induction es generalizing d ns with
  | nil =>
    cases h
    rfl
  | cons e es ih =>
    obtain ⟨k, v⟩ := e
    obtain ⟨hfirst, hrest⟩ := List.pairwise_cons.1 hes
    cases hchoice : choice? d k with
    | none =>
      rw [dialect_of_no_choice hchoice] at h
      obtain ⟨-, ms, -, h⟩ := bind_eq_ok.1 h
      have hlater := ih hrest h
      unfold Chosen at hlater ⊢
      rwa [Value.get?_cons_of_ne (ne_of_no_choice hchoice hf)]
    | some choose =>
      obtain ⟨on, rfl⟩ := exists_bool_of_dialect hchoice h
      obtain ⟨g, hg, rfl, hchoose⟩ := choice?_eq_some hchoice
      obtain ⟨hmade, hothers⟩ := hchoose on
      rw [dialect_of_choice hchoice] at h
      have hlater := ih hrest h
      unfold Chosen at hlater ⊢
      by_cases hname : f.1 = g.1
      · obtain rfl : f = g := eq_of_key hf hg hname
        rw [Value.get?_eq_none hfirst] at hlater
        rw [Value.get?_cons_self]
        exact congrArg Value.bool (hlater.trans hmade).symm
      · have hk : Value.text g.1 ≠ .text f.1 := fun heq => hname (Value.text.inj heq).symm
        rw [Value.get?_cons_of_ne hk]
        rwa [hothers f hf hname] at hlater

end Reader

/-! ## Keys that mean nothing -/

def screenKeys : List String := ["width", "height"]

/-- the value under a key without the keys in it that mean nothing -/
def trimmed : Value → Value → Value
  | .text "screen", .map inner => .map (Value.restrict screenKeys inner)
  | .text "quirks", .map inner => .map (Value.restrict (choices.map Prod.fst) inner)
  | _, v => v

/-- a document without the keys that mean nothing -/
def essence (es : List (Value × Value)) : List (Value × Value) :=
  (Value.restrict Reader.rootKeys es).map fun e => (e.1, trimmed e.1 e.2)

theorem trimmed_of_entries_eq_none {v : Value} (h : Reader.entries v = none) (k : Value) : trimmed k v = v := by
  unfold trimmed
  split
  · cases h
  · cases h
  · rfl

theorem get?_essence (h : key ∈ Reader.rootKeys) (es : List (Value × Value)) :
    Value.get? (essence es) key = (Value.get? es key).map (trimmed (.text key)) := by
  rw [← Value.get?_restrict h es]
  unfold essence
  generalize Value.restrict Reader.rootKeys es = es
  induction es with
  | nil => rfl
  | cons e es ih =>
    obtain ⟨k, v⟩ := e
    by_cases hk : k = .text key
    · rw [hk, List.map_cons, Value.get?_cons_self, Value.get?_cons_self]
      rfl
    · rw [List.map_cons, Value.get?_cons_of_ne hk, Value.get?_cons_of_ne hk, ih]

/-- sections aside, the value under a key that means something is left as it is -/
theorem get?_essence_of_ne (h : key ∈ Reader.rootKeys) (hscreen : key ≠ "screen") (hquirks : key ≠ "quirks")
    (es : List (Value × Value)) : Value.get? (essence es) key = Value.get? es key := by
  have htrimmed (v : Value) : trimmed (.text key) v = v := by
    unfold trimmed
    split
    · exact absurd (Value.text.inj ‹_›) hscreen
    · exact absurd (Value.text.inj ‹_›) hquirks
    · rfl
  rw [get?_essence h]
  cases Value.get? es key with
  | none => rfl
  | some v => rw [Option.map_some, htrimmed]

namespace Reader

/-- reports are kept one after the other -/
theorem forM_report_apply {ι : Type} (f : ι → Notice) (xs : List ι) (ns : List Notice) :
    (xs.forM fun x => report (f x)) ns = .ok () (ns ++ xs.map f) := by
  induction xs generalizing ns with
  | nil =>
    rw [List.map_nil, List.append_nil]
    rfl
  | cons x xs ih =>
    rw [List.map_cons, List.append_cons]
    exact ih (ns ++ [f x])

/-- reading steps that come to the same result or the same error, whatever has been reported before them -/
def Same {α : Type} (a b : Reader α) : Prop := ∀ ns ns', Agree (fun _ _ => True) (a ns) (b ns')

namespace Same

variable {α β : Type}

theorem pure (r : α) : Same (pure r) (pure r) := fun _ _ => .ok r trivial

theorem throw (e : Error) : Same (throw e : Reader α) (throw e) := fun _ _ => .error e trivial

theorem ofExcept (r : Except Error α) : Same (ofExcept r) (ofExcept r) := by
  cases r with
  | ok r => exact pure r
  | error e => exact throw e

theorem bind {a b : Reader α} {k l : α → Reader β} (h : Same a b) (hk : ∀ r, Same (k r) (l r)) :
    Same (a >>= k) (b >>= l) :=
  fun ns ns' => (h ns ns').bind fun r ms ms' _ _ => hk r ms ms'

/-- a report comes to nothing -/
theorem report_right (n : Notice) {a b : Reader α} (h : Same a b) : Same a (do report n; b) :=
  fun ns ns' => h ns (ns' ++ [n])

theorem forM_report {ι : Type} (f : ι → Notice) (xs ys : List ι) :
    Same (xs.forM fun x => report (f x)) (ys.forM fun y => report (f y)) := by
  intro ns ns'
  rw [forM_report_apply, forM_report_apply]
  exact .ok () trivial

theorem integerAt (es : List (Value × Value)) (key : String) (standard : Int) :
    Same (integerAt es key standard) (Reader.integerAt es key standard) := by
  unfold Reader.integerAt
  cases Value.get? es key with
  | none => exact pure standard
  | some v => exact ofExcept _

theorem optionalIntegerAt (es : List (Value × Value)) (key : String) :
    Same (Reader.optionalIntegerAt es key) (Reader.optionalIntegerAt es key) := by
  unfold Reader.optionalIntegerAt
  cases Value.get? es key with
  | none => exact pure none
  | some v =>
    cases v with
    | null => exact pure none
    | _ => exact (ofExcept _).bind fun n => pure (some n)

theorem sectionAt (es : List (Value × Value)) (key : String) :
    Same (Reader.sectionAt es key) (Reader.sectionAt es key) := by
  unfold Reader.sectionAt
  cases Value.get? es key with
  | none => exact pure []
  | some v =>
    dsimp only
    split_ifs
    · exact pure []
    · cases entries v with
      | none => exact throw _
      | some inner => exact pure inner

/-- keys that name no choice make no difference to the choices made. The induction is on the entries -/
theorem dialect (d : Dialect) (es : List (Value × Value)) :
    Same (Reader.dialect d (Value.restrict (choices.map Prod.fst) es)) (Reader.dialect d es) := by
  induction es generalizing d with
  | nil => exact pure d
  | cons e es ih =>
    obtain ⟨k, v⟩ := e
    cases hchoice : choice? d k with
    | none =>
      rw [dialect_of_no_choice hchoice]
      refine report_right _ ?_
      have hk : ¬ Value.isKeyOf (choices.map Prod.fst) k = true := by
        rw [isKeyOf_of_no_choice hchoice]
        exact Bool.false_ne_true
      rw [Value.restrict_cons_of_neg hk]
      exact ih d
    | some choose =>
      rw [Value.restrict_cons_of_pos (isKeyOf_of_choice hchoice)]
      cases v with
      | bool on =>
        rw [dialect_of_choice hchoice, dialect_of_choice hchoice]
        exact ih (choose on)
      | _ =>
        simp only [Reader.dialect, hchoice]
        exact (ofExcept _).bind fun text => throw _

end Same

/-- what is read from a section of a document's essence is what is read from the section, without the keys in it that
mean nothing -/
theorem sectionAt_essence {keys : List String} (h : key ∈ rootKeys)
    (hmap : ∀ inner, trimmed (.text key) (.map inner) = .map (Value.restrict keys inner)) (es : List (Value × Value)) :
    sectionAt (essence es) key = (do return Value.restrict keys (← sectionAt es key)) := by
  unfold sectionAt
  rw [get?_essence h]
  cases Value.get? es key with
  | none => rfl
  | some v =>
    rw [Option.map_some]
    cases hv : entries v with
    | none =>
      rw [trimmed_of_entries_eq_none hv]
      dsimp only
      rw [hv]
      split_ifs <;> rfl
    | some inner =>
      obtain rfl := eq_map_of_entries hv
      rw [hmap]
      cases inner with
      | nil => rfl
      | cons e inner =>
        cases hrest : Value.restrict keys (e :: inner) <;> simp [Value.isVoid, entries, hrest]

theorem integerAt_essence (h : key ∈ numbers.map Prod.fst) (es : List (Value × Value)) :
    integerAt (essence es) key = integerAt es key := by
  have hkeys : ∀ key ∈ numbers.map Prod.fst, key ∈ rootKeys ∧ key ≠ "screen" ∧ key ≠ "quirks" := by decide
  obtain ⟨hroot, hscreen, hquirks⟩ := hkeys key h
  unfold integerAt
  rw [get?_essence_of_ne hroot hscreen hquirks]

theorem integerAt_restrict {keys : List String} (h : key ∈ keys) (es : List (Value × Value)) :
    integerAt (Value.restrict keys es) key = integerAt es key := by
  unfold integerAt
  rw [Value.get?_restrict h]

/-- **Keys that mean nothing make no difference** to the configuration that is read, or to the error that ends the
reading. -/
theorem same_essence (es : List (Value × Value)) : Same (root (essence es)) (root es) := by
  have hnumber {key : String} (h : key ∈ numbers.map Prod.fst) : integerAt (essence es) key = integerAt es key :=
    integerAt_essence h es
  have hmemory : integerAt (essence es) "memory_size" = integerAt es "memory_size" := hnumber (by decide)
  have hprogram : integerAt (essence es) "program_start" = integerAt es "program_start" := hnumber (by decide)
  have hfont : integerAt (essence es) "font_start" = integerAt es "font_start" := hnumber (by decide)
  have hcpu : integerAt (essence es) "cpu_hz" = integerAt es "cpu_hz" := hnumber (by decide)
  have htimer : integerAt (essence es) "timer_hz" = integerAt es "timer_hz" := hnumber (by decide)
  have hseed : optionalIntegerAt (essence es) "seed" = optionalIntegerAt es "seed" := by
    unfold optionalIntegerAt
    rw [get?_essence_of_ne (by decide) (by decide) (by decide)]
  have hscreen : sectionAt (essence es) "screen" = (do return Value.restrict screenKeys (← sectionAt es "screen")) :=
    sectionAt_essence (by decide) (fun _ => rfl) es
  have hquirks : sectionAt (essence es) "quirks" =
      (do return Value.restrict (choices.map Prod.fst) (← sectionAt es "quirks")) :=
    sectionAt_essence (by decide) (fun _ => rfl) es
  have hwidth (inner : List (Value × Value)) :
      integerAt (Value.restrict screenKeys inner) "width" = integerAt inner "width" := integerAt_restrict (by decide) inner
  have hheight (inner : List (Value × Value)) :
      integerAt (Value.restrict screenKeys inner) "height" = integerAt inner "height" :=
    integerAt_restrict (by decide) inner
  unfold root
  rw [hmemory, hprogram, hfont, hcpu, htimer, hseed, hscreen, hquirks]
  simp only [bind_assoc, pure_bind, hwidth, hheight]
  refine (Same.forM_report _ _ _).bind fun _ => ?_
  refine (Same.integerAt es "memory_size" _).bind fun memorySize => ?_
  refine (Same.integerAt es "program_start" _).bind fun programStart => ?_
  refine (Same.integerAt es "font_start" _).bind fun fontStart => ?_
  refine (Same.integerAt es "cpu_hz" _).bind fun cpuHz => ?_
  refine (Same.integerAt es "timer_hz" _).bind fun timerHz => ?_
  refine (Same.optionalIntegerAt es "seed").bind fun seed => ?_
  refine (Same.sectionAt es "screen").bind fun screen => ?_
  refine (Same.integerAt screen "width" _).bind fun width => ?_
  refine (Same.integerAt screen "height" _).bind fun height => ?_
  refine (Same.sectionAt es "quirks").bind fun quirks => ?_
  refine (Same.dialect {} quirks).bind fun dialect => ?_
  exact (Same.ofExcept _).bind fun _ => Same.pure _

end Reader

/-! ## Accepted documents -/

/-- the configuration is what the document says, with the standard values for what it leaves out -/
structure ReadFrom (c : Config) (es : List (Value × Value)) : Prop where
  numbers : ∀ f ∈ numbers, Given es f.1 (f.2 {}) (f.2 c)
  seed : GivenSeed es "seed" c.seed
  screen : ∃ inner, SectionOf es "screen" inner ∧ Given inner "width" Screen.standardWidth c.width ∧
    Given inner "height" Screen.standardHeight c.height
  choices : ∃ inner, SectionOf es "quirks" inner ∧ ∀ f ∈ choices, Chosen inner f.1 (f.2 {}) (f.2 c.dialect)

theorem ofValue_map (es : List (Value × Value)) :
    ofValue (.map es) = match Reader.root es [] with
      | .ok c ns => (Except.ok c, ns)
      | .error e ns => (Except.error e, ns) := rfl

theorem root_of_ofValue {c : Config} (h : ofValue (.map es) = (.ok c, ns)) : Reader.root es [] = .ok c ns := by
  rw [ofValue_map] at h
  cases hroot : Reader.root es [] with
  | ok c' ns' =>
    rw [hroot] at h
    cases h
    rfl
  | error e ns' =>
    rw [hroot] at h
    cases h

theorem readFrom_of_root {c : Config} (h : Reader.root es ns = .ok c ns')
    (hquirks : ∀ inner, SectionOf es "quirks" inner → Value.NoRepeats inner) : c.ReadFrom es := by
  unfold Reader.root at h
  simp only [bind_eq_ok, ofExcept_eq_ok] at h
  obtain ⟨-, ns, -, memorySize, ns, hmemory, programStart, ns, hprogram, fontStart, ns, hfont, cpuHz, ns, hcpu, timerHz, ns,
    htimer, seed, ns, hseed, screen, ns, hscreen, width, ns, hwidth, height, ns, hheight, quirks, ns, hsection, dialect,
    ns, hdialect, ⟨⟩, ns, -, h⟩ := h
  cases h
  have hsection := Reader.section_of_sectionAt hsection
  refine ⟨?_, (Reader.given_of_optionalIntegerAt hseed).1, ⟨screen, Reader.section_of_sectionAt hscreen,
    Reader.given_of_integerAt hwidth, Reader.given_of_integerAt hheight⟩, ⟨quirks, hsection, fun f hf => ?_⟩⟩
  · intro f hf
    simp only [numbers, List.mem_cons, List.not_mem_nil, or_false] at hf
    obtain rfl | rfl | rfl | rfl | rfl := hf
    · exact Reader.given_of_integerAt hmemory
    · exact Reader.given_of_integerAt hprogram
    · exact Reader.given_of_integerAt hfont
    · exact Reader.given_of_integerAt hcpu
    · exact Reader.given_of_integerAt htimer
  · exact Reader.dialect_reads (hquirks quirks hsection) hdialect hf

/-- documents of the same essence are read the same -/
theorem fst_ofValue_eq {es es' : List (Value × Value)} (h : essence es = essence es') :
    (ofValue (.map es)).1 = (ofValue (.map es')).1 := by
  have hessence (es : List (Value × Value)) : (ofValue (.map (essence es))).1 = (ofValue (.map es)).1 := by
    have hsame := Reader.same_essence es [] []
    rw [ofValue_map, ofValue_map]
    generalize Reader.root (essence es) [] = result, Reader.root es [] = result' at hsame
    cases hsame with
    | ok c _ => rfl
    | error e _ => rfl
  rw [← hessence es, h, hessence es']

end Config

open Config in
/-- **An accepted document means what it says, and a machine can be built from it.** Every setting is what the document
gives or the standard value, and other keys make no difference. Programs start inside memory, the font fits, rates and
sizes are positive. If memory and screen have no more cells than can be numbered, the machine built has nothing but the
font in memory, a dark screen, and the processor at the program with all else zero; if they have more, that is the error
it is refused with. -/
theorem accepted_settings {κ : Type} [Credit κ] {es : List (Value × Value)} {c : Config} {ns : List Notice}
    (hv : ofValue (.map es) = (.ok c, ns)) (hquirks : ∀ inner, SectionOf es "quirks" inner → Value.NoRepeats inner) :
    c.ReadFrom es ∧
    (∀ es', essence es' = essence es → (ofValue (.map es')).1 = .ok c) ∧
    (0 < c.memorySize ∧ (0 ≤ c.programStart ∧ c.programStart < c.memorySize) ∧
      (0 ≤ c.fontStart ∧ c.fontStart ≤ c.memorySize - 80) ∧ 0 < c.cpuHz ∧ 0 < c.timerHz ∧ 0 < c.width ∧ 0 < c.height) ∧
    (Memory.indexLimit ≤ c.memorySize → (Machine.create c : Except _ (Machine κ)) = .error (.memory .tooLarge)) ∧
    (c.memorySize < Memory.indexLimit → Screen.indexLimit ≤ c.width * c.height →
      (Machine.create c : Except _ (Machine κ)) = .error (.screen .tooLarge)) ∧
    (c.memorySize < Memory.indexLimit → c.width * c.height < Screen.indexLimit →
      ∃ m : Machine κ, Machine.create c = .ok m ∧ m.config = c ∧
        ((m.state.memory.size : Int) = c.memorySize ∧
          ∀ k, m.state.memory.byte k =
            if c.fontStart.toNat ≤ k then Font.bytes[k - c.fontStart.toNat]?.getD 0 else 0) ∧
        m.state.screen = .dark c.width.toNat c.height.toNat ∧
        ((m.state.cpu.pc : Int) = c.programStart ∧ m.state.cpu = { pc := m.state.cpu.pc }) ∧
        m.state.cycles = 0 ∧ m.clock = Clock.zero) := by
  have hc := valid_of_ofValue hv
  have hcreate := Machine.create_eq (κ := κ) hc
  refine ⟨readFrom_of_root (root_of_ofValue hv) hquirks, fun es' hes' => ?_, ?_, fun hmemory => ?_,
    fun hmemory hpixels => ?_, fun hmemory hpixels => ?_⟩
  · rw [fst_ofValue_eq hes', hv]
  · have hfont : c.fontStart + 80 ≤ c.memorySize := hc.font_le
    exact ⟨hc.memory_pos, ⟨hc.program_nonneg, hc.program_lt⟩, ⟨hc.font_nonneg, by omega⟩, hc.cpu_pos, hc.timer_pos,
      hc.width_pos, hc.height_pos⟩
  · rw [hcreate, if_pos hmemory]
  · rw [hcreate, if_neg (not_le.2 hmemory), if_pos hpixels]
  · rw [if_neg (not_le.2 hmemory), if_neg (not_le.2 hpixels)] at hcreate
    refine ⟨_, hcreate, rfl, ⟨?_, State.byte_fresh hc _⟩, rfl, ⟨Int.toNat_of_nonneg hc.program_nonneg, rfl⟩, rfl, rfl⟩
    exact (State.Within.fresh hc _).memory

/-- a document with keys that mean nothing at its root and in both sections -/
def Config.remarkedDocument : List (Value × Value) :=
  [(.text "memory_size", .text "0x1000"), (.text "colour", .null), (.text "seed", .int 5),
    (.text "screen", .map [(.text "width", .int 8), (.text "depth", .int 1)]),
    (.text "quirks", .map [(.text "wrap", .bool false), (.text "shift_uses_vy", .bool true)])]

/-- the same document without them -/
def Config.plainDocument : List (Value × Value) :=
  [(.text "memory_size", .text "0x1000"), (.text "seed", .int 5), (.text "screen", .map [(.text "width", .int 8)]),
    (.text "quirks", .map [(.text "shift_uses_vy", .bool true)])]

/-- the configuration that both ask for -/
def Config.narrow : Config := { seed := some 5, width := 8, dialect := { shiftReadsVy := true } }

theorem remarked_settings :
    Config.ofValue (.map Config.remarkedDocument) =
      (.ok .narrow, [.unknownKey (some "colour"), .unknownChoice (some "wrap")]) ∧
    (Config.ofValue (.map Config.plainDocument)).1 = .ok .narrow ∧
    ∃ m : Machine Rat, Machine.create .narrow = .ok m ∧ m.state.memory.byte 0x50 = 0xF0 ∧
      m.state.memory.byte 0x200 = 0 ∧ m.state.screen = .dark 8 32 ∧ (m.state.cpu.pc : Int) = 0x200 := by
  have hv : Config.ofValue (.map Config.remarkedDocument) =
      (.ok .narrow, [.unknownKey (some "colour"), .unknownChoice (some "wrap")]) := rfl
  have hquirks : ∀ inner, Config.SectionOf Config.remarkedDocument "quirks" inner → Value.NoRepeats inner := by
    intro inner hinner
    obtain rfl := Value.map.inj (show Value.map _ = .map inner from hinner)
    simp [Value.NoRepeats, Value.sameKey]
  obtain ⟨-, hsame, -, -, -, hbuilt⟩ := accepted_settings (κ := Rat) hv hquirks
  obtain ⟨m, hcreate, -, ⟨-, hbytes⟩, hscreen, ⟨hpc, -⟩, -⟩ := hbuilt (by decide) (by decide)
  refine ⟨hv, hsame _ rfl, m, hcreate, ?_, ?_, hscreen, hpc⟩
  · rw [hbytes]
    rfl
  · rw [hbytes]
    rfl

/-- a memory with more bytes than can be numbered -/
def Config.huge : Config := { memorySize := 0x8000000000000000 }

/-- **Not every accepted document has a machine.** Nothing keeps a document from asking for more bytes than can be
numbered. -/
theorem huge_memory_refused :
    Config.ofValue (.map [(.text "memory_size", .int 0x8000000000000000)]) = (.ok .huge, []) ∧
      (Machine.create .huge : Except _ (Machine Rat)) = .error (.memory .tooLarge) := by
  have hc : Config.huge.Valid := (Config.validate_eq_ok .huge).1 rfl
  refine ⟨rfl, ?_⟩
  rw [Machine.create_eq hc, if_pos (by decide)]

end Chip8
