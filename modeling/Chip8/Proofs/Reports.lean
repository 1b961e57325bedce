/-
What is reported about keys that mean nothing. Three mappings are read: the document itself, the section of choices and
the section that describes the screen. The keys of the first are gone through before anything is read, those of the
second while it is read, and of the third only the keys that mean something are ever looked at. So a key that is
misspelt there goes by unseen.

- `Value.unknown`: the keys of a mapping that mean nothing in it.
- `reportUnknown_apply`, `notices_of_dialect`: what the reading of the document and of its choices reports.
- `notices_of_accepted`: all that is reported about an accepted document.
- `misspelt_width_unreported`: a key of the screen that is not.
-/
import Chip8.Proofs.Acceptance

namespace Chip8

open Act

/-- the keys of a mapping that are none of these, in its order -/
def Value.unknown (keys : List String) (es : List (Value × Value)) : List Value :=
  (es.filter fun e => !isKeyOf keys e.1).map Prod.fst

namespace Value

variable {keys : List String} {es : List (Value × Value)} {k : Value}

theorem unknown_cons_of_pos (h : isKeyOf keys k = true) (v : Value) :
    unknown keys ((k, v) :: es) = unknown keys es := by
  simp only [unknown, List.filter_cons, h, Bool.not_true, Bool.false_eq_true, if_false]

theorem unknown_cons_of_neg (h : isKeyOf keys k = false) (v : Value) :
    unknown keys ((k, v) :: es) = k :: unknown keys es := by
  simp only [unknown, List.filter_cons, h, Bool.not_false, if_true, List.map_cons]

end Value

namespace Config

namespace Reader

variable {es : List (Value × Value)} {key : String} {ns ns' : List Notice}

/-- every key of a document that means nothing is reported -/
theorem reportUnknown_apply (es : List (Value × Value)) (ns : List Notice) :
    reportUnknown es ns =
      .ok () (ns ++ (Value.unknown rootKeys es).map fun k => .unknownKey k.shown.toOption) := by
  unfold reportUnknown Value.unknown
  rw [forM_report_apply, List.map_map]
  rfl

/-- every key of the section of choices that means nothing is reported. The induction is on the entries; each makes a
choice or is reported -/
theorem notices_of_dialect {d d' : Dialect} (h : dialect d es ns = .ok d' ns') :
    ns' = ns ++ (Value.unknown (choices.map Prod.fst) es).map fun k => .unknownChoice k.shown.toOption := by
  induction es generalizing d ns with
  | nil =>
    cases h
    rw [Value.unknown, List.filter_nil, List.map_nil, List.map_nil, List.append_nil]
  | cons e es ih =>
    obtain ⟨k, v⟩ := e
    cases hchoice : choice? d k with
    | none =>
      rw [dialect_of_no_choice hchoice] at h
      rw [Value.unknown_cons_of_neg (isKeyOf_of_no_choice hchoice), List.map_cons, List.append_cons]
      exact ih h
    | some choose =>
      obtain ⟨on, rfl⟩ := exists_bool_of_dialect hchoice h
      rw [dialect_of_choice hchoice] at h
      rw [Value.unknown_cons_of_pos (isKeyOf_of_choice hchoice)]
      exact ih h

/-- of the parts of a document, the keys at its root and the choices are the only ones that anything is said about -/
theorem notices_of_root {c : Config} (h : root es ns = .ok c ns') :
    ∃ screen quirks, SectionOf es "screen" screen ∧ SectionOf es "quirks" quirks ∧
      ns' = ns ++ (Value.unknown rootKeys es).map (fun k => .unknownKey k.shown.toOption) ++
        (Value.unknown (choices.map Prod.fst) quirks).map fun k => .unknownChoice k.shown.toOption := by
  unfold root at h
  simp only [bind_eq_ok, ofExcept_eq_ok, integerAt_eq_ok] at h
  obtain ⟨⟨⟩, _, hreport, memorySize, _, ⟨-, rfl⟩, programStart, _, ⟨-, rfl⟩, fontStart, _, ⟨-, rfl⟩, cpuHz, _,
    ⟨-, rfl⟩, timerHz, _, ⟨-, rfl⟩, seed, _, hseed, screen, _, hscreen, width, _, ⟨-, rfl⟩, height,
    _, ⟨-, rfl⟩, quirks, _, hquirks, dialect, _, hdialect, ⟨⟩, _, ⟨-, rfl⟩, h⟩ := h
  cases h
  obtain ⟨-, rfl⟩ := sectionAt_eq_ok.1 hscreen
  obtain ⟨-, rfl⟩ := sectionAt_eq_ok.1 hquirks
  obtain ⟨-, rfl⟩ := given_of_optionalIntegerAt hseed
  refine ⟨screen, quirks, section_of_sectionAt hscreen, section_of_sectionAt hquirks, ?_⟩
  rw [notices_of_dialect hdialect]
  cases (reportUnknown_apply es ns).symm.trans hreport
  rfl

end Reader

end Config

open Config in
/-- **Which keys are reported.** What is reported about an accepted document are warnings: one for each key at its root
that means nothing and then one for each key of its choices that means nothing, in the order in which they stand there.
That is one for each key that means nothing anywhere if and only if there is none in the section of the screen. -/
theorem notices_of_accepted {es : List (Value × Value)} {c : Config} {ns : List Notice}
    (h : ofValue (.map es) = (.ok c, ns)) :
    ∃ screen quirks, SectionOf es "screen" screen ∧ SectionOf es "quirks" quirks ∧
      ns = (Value.unknown Reader.rootKeys es).map (fun k => .unknownKey k.shown.toOption) ++
        (Value.unknown (choices.map Prod.fst) quirks).map (fun k => .unknownChoice k.shown.toOption) ∧
      (∀ n ∈ ns, n.level = .warning) ∧
      (ns.length = (Value.unknown Reader.rootKeys es).length + (Value.unknown (choices.map Prod.fst) quirks).length +
          (Value.unknown screenKeys screen).length ↔
        Value.unknown screenKeys screen = []) := by
  obtain ⟨screen, quirks, hscreen, hquirks, hns⟩ := Reader.notices_of_root (root_of_ofValue h)
  rw [List.nil_append] at hns
  refine ⟨screen, quirks, hscreen, hquirks, hns, ?_, ?_⟩
  · rw [hns]
    intro n hn
    rcases List.mem_append.1 hn with hkey | hchoice
    · obtain ⟨k, -, rfl⟩ := List.mem_map.1 hkey
      rfl
    · obtain ⟨k, -, rfl⟩ := List.mem_map.1 hchoice
      rfl
  · rw [hns, List.length_append, List.length_map, List.length_map, ← List.length_eq_zero_iff]
    omega

/-- of the three keys of the document that mean nothing, the one of the screen is not reported -/
theorem remarked_document_reports :
    ∃ ns screen, Config.ofValue (.map Config.remarkedDocument) = (.ok .narrow, ns) ∧
      Config.SectionOf Config.remarkedDocument "screen" screen ∧
      Value.unknown Config.screenKeys screen = [.text "depth"] ∧
      ns = [.unknownKey (some "colour")] ++ [.unknownChoice (some "wrap")] ∧ (∀ n ∈ ns, n.level = .warning) ∧
      ns.length ≠ 1 + 1 + 1 := by
  have hv : Config.ofValue (.map Config.remarkedDocument) =
      (.ok .narrow, [.unknownKey (some "colour"), .unknownChoice (some "wrap")]) := rfl
  obtain ⟨screen, quirks, hscreen, hquirks, hns, hlevel, hall⟩ := notices_of_accepted hv
  obtain rfl := Value.map.inj (show Value.map _ = .map screen from hscreen)
  obtain rfl := Value.map.inj (show Value.map _ = .map quirks from hquirks)
  refine ⟨_, _, hv, hscreen, rfl, hns, hlevel, fun hcount => ?_⟩
  exact List.cons_ne_nil _ _ (hall.1 hcount)

/-- a document that asks for a width, but has the letters of the key in another order -/
def Config.misspeltDocument : List (Value × Value) := [(.text "screen", .map [(.text "widht", .int 128)])]

/-- **A key of the screen that means nothing is not reported.** -/
theorem misspelt_width_unreported :
    Config.ofValue (.map Config.misspeltDocument) = (.ok {}, []) ∧
      Config.SectionOf Config.misspeltDocument "screen" [(.text "widht", .int 128)] ∧
      Value.unknown Config.screenKeys [(.text "widht", .int 128)] = [.text "widht"] := ⟨rfl, rfl, rfl⟩

end Chip8
