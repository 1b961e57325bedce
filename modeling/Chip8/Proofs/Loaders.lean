/-
Loading, step by step. `Loader` has the loaders as they work on memory in place: ranges are checked one after the other,
and bytes are put into an array that could grow or shrink under them, so that a loader refused half way would leave half
an image behind. None does, because nothing is put anywhere before the last check has passed (`AllOrNothing`).

- `Memory.splice_eq_write`: the array keeps its size if the range lies inside it.
- `Image.checkCells_eq`: a check fails for the first address that memory does not have.
- `Loader.image_eq`, `Loader.font_eq`: in place, and from memory to memory.
- `AllOrNothing.cells`, `AllOrNothing.run`: single cells, and bytes in a run, which are cells one after the other.
- `loaders_all_or_nothing`: all loaders, in any memory and at any address.
-/
import Chip8.Proofs.Images
import Chip8.Proofs.FailedLoads

namespace Chip8

open Act

/-! ## Bytes in place of others -/

namespace Memory

def Holds (m : Memory) (address : Int) : Prop := 0 ≤ address ∧ address < m.size

instance (m : Memory) : DecidablePred m.Holds := fun _ => instDecidableAnd

/-- the first of some addresses at which memory has no byte -/
def firstOutside? (m : Memory) (addresses : List Int) : Option Int := addresses.find? fun a => ¬ m.Holds a

/-- where an address cuts the bytes: a negative one counts back from the end, and there is no cut outside -/
def cut (m : Memory) (address : Int) : Nat := min (if address < 0 then address + m.size else address).toNat m.size

/-- bytes in place of those from one address up to another, be they more or fewer -/
def splice (m : Memory) (start stop : Int) (bs : List UInt8) : Memory :=
  ⟨m.bytes.extract 0 (m.cut start) ++ bs.toArray ++ m.bytes.extract (max (m.cut start) (m.cut stop)) m.size⟩

/-- a byte at the place that an address stands for, if it stands for one -/
def put (m : Memory) (address : Int) (b : UInt8) : Memory :=
  match m.place? address with
  | some place => m.write place [b]
  | none => m

variable {m t : Memory} {address : Int} {bs : List UInt8}

/-- memories are the same if they have as many bytes and the same ones -/
theorem eq_of_byte (hsize : m.size = t.size) (hbyte : ∀ k < m.size, m.byte k = t.byte k) : m = t := by
  obtain ⟨ms⟩ := m
  obtain ⟨ts⟩ := t
  congr 1
  refine Array.ext hsize fun k hk hk' => ?_
  have hsame := hbyte k hk
  unfold byte at hsame
  rw [Array.getD_eq_getD_getElem?, Array.getD_eq_getD_getElem?, Array.getElem?_eq_getElem hk,
    Array.getElem?_eq_getElem hk'] at hsame
  exact hsame

theorem cut_of_le (h : 0 ≤ address) (hle : address ≤ m.size) : m.cut address = address.toNat := by
  unfold cut
  rw [if_neg (not_lt.2 h), min_eq_left]
  omega

theorem getD_extract {start stop k : Nat} (hk : start + k < stop) (hstop : stop ≤ m.size) :
    (m.bytes.extract start stop)[k]?.getD 0 = m.byte (start + k) := by
  have hlt : start + k < m.bytes.size := hk.trans_le hstop
  rw [byte, Array.getD_eq_getD_getElem?, Array.getElem?_eq_getElem hlt, Array.getElem?_extract_of_lt]
  omega

/-- bytes in place of as many inside memory are bytes written over them -/
theorem splice_eq_write (h : 0 ≤ address) (hfits : address + bs.length ≤ m.size) :
    m.splice address (address + bs.length) bs = m.write address.toNat bs := by
  obtain ⟨a, rfl⟩ := Int.eq_ofNat_of_zero_le h
  have hstart : m.cut a = a := cut_of_le h (by omega)
  have hstop : m.cut (a + bs.length) = a + bs.length := cut_of_le (by omega) hfits
  have hsplice : (m.splice a (a + bs.length) bs).bytes =
      m.bytes.extract 0 a ++ bs.toArray ++ m.bytes.extract (a + bs.length) m.size := by
    rw [splice, hstart, hstop, max_eq_right (Nat.le_add_right a bs.length)]
  have hbytes : m.bytes.size = m.size := rfl
  have hfront : (m.bytes.extract 0 a).size = a := by
    rw [Array.size_extract]
    omega
  have hsize : (m.splice a (a + bs.length) bs).size = m.size := by
    rw [size, hsplice]
    simp only [Array.size_append, Array.size_extract, List.size_toArray]
    omega
  rw [Int.toNat_natCast]
  refine eq_of_byte (hsize.trans (m.size_write a bs).symm) fun k hk => ?_
  rw [hsize] at hk
  rw [byte, Array.getD_eq_getD_getElem?, hsplice]
  simp only [Array.getElem?_append, Array.size_append, hfront, List.size_toArray, List.getElem?_toArray]
  -- before the bytes, among them, and after them
  split_ifs with hend hbefore
  · rw [byte_write_of_not_mem m (.inl hbefore), getD_extract (by omega) (by omega), Nat.zero_add]
  · obtain ⟨j, rfl⟩ := Nat.exists_eq_add_of_le (not_lt.1 hbefore)
    have hj : j < bs.length := by omega
    rw [byte_write_of_mem m j hj hk, Nat.add_sub_cancel_left, List.getElem?_eq_getElem hj, Option.getD_some]
  · have hk' : a + bs.length + (k - (a + bs.length)) = k := by omega
    rw [byte_write_of_not_mem m (.inr (not_lt.1 hend)), getD_extract (by omega) (le_refl _), hk']

/-- a range is refused for an address if it does not lie inside memory -/
theorem check_eq_error {length : Int} {f : Fault} (h : m.check address length = .error f) :
    (address < 0 ∨ m.size < address + length) ∧ ∃ a, f = .addressOutOfBounds a m.size := by
  unfold check at h
  split_ifs at h with hneg hend
  · cases h
    exact ⟨.inl hneg, _, rfl⟩
  · cases h
    exact ⟨.inr hend, _, rfl⟩

/-- a single address is refused if memory does not have it -/
theorem check_one (m : Memory) (address : Int) :
    m.check address = if m.Holds address then .ok () else .error (.addressOutOfBounds address m.size) := by
  unfold Memory.check
  by_cases hneg : address < 0
  · have hout : ¬ m.Holds address := fun h => absurd h.1 (not_le.2 hneg)
    rw [if_pos hneg, if_neg hout]
  rw [if_neg hneg]
  by_cases hend : (m.size : Int) < address + 1
  · have hout : ¬ m.Holds address := fun h => absurd h.2 (by omega)
    rw [if_pos hend, if_neg hout, max_eq_left (by omega)]
  · have hin : m.Holds address := ⟨not_lt.1 hneg, by omega⟩
    rw [if_neg hend, if_pos hin]

theorem put_eq_write (h : m.Holds address) (b : UInt8) : m.put address b = m.write address.toNat [b] := by
  obtain ⟨hlow, hhigh⟩ := h
  have hplace : m.place? address = some address.toNat := by
    unfold place?
    simp only [if_neg (not_lt.2 hlow)]
    rw [if_pos ⟨hlow, hhigh⟩]
  rw [put, hplace]

end Memory

/-! ## Runs -/

namespace Sparse

variable {address : Int} {bs : List UInt8}

theorem mem_run {c : Int × Int} (h : c ∈ run address bs) :
    ∃ (j : Nat) (b : UInt8), bs[j]? = some b ∧ c = (address + j, (b.toNat : Int)) := by
  induction bs generalizing address with
  | nil => cases h
  | cons b bs ih =>
    rw [run, List.mem_cons] at h
    rcases h with rfl | h
    · exact ⟨0, b, rfl, by simp⟩
    · obtain ⟨j, b', hj, rfl⟩ := ih h
      refine ⟨j + 1, b', hj, ?_⟩
      rw [Nat.cast_succ, add_assoc, add_comm (1 : Int)]

theorem mem_keys_run {a : Int} : a ∈ (run address bs).map Prod.fst ↔ address ≤ a ∧ a < address + bs.length := by
  induction bs generalizing address with
  | nil =>
    simp only [run, List.map_nil, List.not_mem_nil, List.length_nil, false_iff]
    omega
  | cons b bs ih =>
    rw [run, List.map_cons, List.mem_cons, ih, List.length_cons]
    omega

end Sparse

/-! ## The first address outside -/

namespace Image

variable {m : Memory}

theorem bytes?_toNat (bs : List UInt8) : bytes? (bs.map fun b => (b.toNat : Int)) = some bs := by
  induction bs with
  | nil => rfl
  | cons b bs ih =>
    have hlt := b.toNat_lt
    rw [List.map_cons, bytes?_cons, if_pos (by omega), ih, Int.toNat_natCast, UInt8.ofNat_toNat]
    rfl

/-- cells are refused for the first of their addresses that memory does not have -/
theorem checkCells_eq (m : Memory) (cells : Sparse) :
    checkCells m cells = match m.firstOutside? (cells.map Prod.fst) with
      | some a => .error (.addressOutOfBounds a m.size)
      | none => .ok () := by
  induction cells with
  | nil => rfl
  | cons c cells ih =>
    unfold Memory.firstOutside? at ih ⊢
    rw [checkCells, Memory.check_one, List.map_cons]
    by_cases hc : m.Holds c.1
    · rw [if_pos hc, List.find?_cons_of_neg (by simpa using hc), ← ih]
      rfl
    · rw [if_neg hc, List.find?_cons_of_pos (by simpa using hc)]
      rfl

/-- other cells leave a byte as it is -/
theorem byte_foldl_write_of_not_mem {cells : Sparse} (hin : ∀ c ∈ cells, m.Holds c.1) {k : Nat}
    (hk : (k : Int) ∉ cells.map Prod.fst) :
    (cells.foldl (fun m c => m.write c.1.toNat [UInt8.ofNat (c.2 % 256).toNat]) m).byte k = m.byte k := by
  induction cells generalizing m with
  | nil => rfl
  | cons c cells ih =>
    rw [List.map_cons, List.mem_cons, not_or] at hk
    obtain ⟨hlow, hhigh⟩ := hin c List.mem_cons_self
    rw [List.foldl_cons, ih _ hk.2]
    · refine Memory.byte_write_of_not_mem m ?_
      rw [List.length_singleton]
      omega
    · intro d hd
      rw [Memory.Holds, Memory.size_write]
      exact hin d (List.mem_cons_of_mem c hd)

/-- if no address comes twice, every cell has its byte after all of them are put -/
theorem byte_foldl_write_of_mem {cells : Sparse} (hin : ∀ c ∈ cells, m.Holds c.1) (hkeys : (cells.map Prod.fst).Nodup)
    {c : Int × Int} (hc : c ∈ cells) :
    (cells.foldl (fun m c => m.write c.1.toNat [UInt8.ofNat (c.2 % 256).toNat]) m).byte c.1.toNat =
      UInt8.ofNat (c.2 % 256).toNat := by
  induction cells generalizing m with
  | nil => cases hc
  | cons d cells ih =>
    rw [List.map_cons, List.nodup_cons] at hkeys
    obtain ⟨hlow, hhigh⟩ := hin d List.mem_cons_self
    have hrest : ∀ e ∈ cells, (m.write d.1.toNat [UInt8.ofNat (d.2 % 256).toNat]).Holds e.1 := by
      intro e he
      rw [Memory.Holds, Memory.size_write]
      exact hin e (List.mem_cons_of_mem d he)
    rw [List.foldl_cons]
    rcases List.mem_cons.1 hc with rfl | hmem
    · have hother : ((c.1.toNat : Nat) : Int) ∉ cells.map Prod.fst := by
        rw [Int.toNat_of_nonneg hlow]
        exact hkeys.1
      rw [byte_foldl_write_of_not_mem hrest hother]
      refine m.byte_write_of_mem 0 ?_ ?_
      · exact Nat.one_pos
      · omega
    · exact ih hrest hkeys.2 hmem

end Image

/-! ## Loaders that work in place -/

/-- an action on memory that may be refused -/
abbrev Loader := EStateM Image.LoadError Memory

namespace Loader

/-- a range is refused if it does not lie inside memory -/
def inside (address length : Int) : Loader Unit := do
  ofExcept (((← get).check address length).mapError .fault)

def place (address : Int) (bs : List UInt8) : Loader Unit := do
  inside address bs.length
  modify fun m => m.splice address (address + bs.length) bs

def font (address : Int) : Loader Unit := place address Font.bytes

/-- put bytes at an address; how many there were -/
def bytes (address : Int) (bs : List UInt8) : Loader Nat := do
  place address bs
  return bs.length

/-- put the low byte of every value at its address; how many there were -/
def cells (cs : Sparse) : Loader Nat := do
  forM cs fun c => inside c.1 1
  forM cs fun c => modify fun m => m.put c.1 (UInt8.ofNat (c.2 % 256).toNat)
  return cs.length

/-- put an image into memory, its first byte at `address` unless it names its own addresses; how many bytes it has -/
def image (address : Int) : Image → Loader Nat
  | .raw bs => bytes address bs
  | .numbers values =>
    match Image.bytes? values with
    | some bs => bytes address bs
    | none => throw .notBytes
  | .sparse cs => cells cs

/-- the action that puts another memory in the place of the one at hand, or leaves that and is refused -/
def replace {α : Type} (f : Memory → Except Image.LoadError (Memory × α)) : Loader α := fun m =>
  match f m with
  | .ok (t, r) => .ok r t
  | .error e => .error e m

variable {m t : Memory}

theorem inside_apply (address length : Int) (m : Memory) :
    inside address length m = match m.check address length with
      | .ok _ => .ok () m
      | .error f => .error (.fault f) m := by
  simp only [inside, bind_apply, get_apply, ofExcept_apply]
  cases m.check address length <;> rfl

/-- bytes are written if the check passes -/
theorem place_apply (address : Int) (bs : List UInt8) (m : Memory) :
    place address bs m = match m.check address bs.length with
      | .ok _ => .ok () (m.write address.toNat bs)
      | .error f => .error (.fault f) m := by
  simp only [place, bind_apply, inside_apply]
  cases hcheck : m.check address bs.length with
  | error f => rfl
  | ok _ =>
    obtain ⟨hlow, hfits⟩ := Memory.check_eq_ok_iff.1 hcheck
    rw [← Memory.splice_eq_write hlow hfits]
    rfl

theorem bytes_apply (address : Int) (bs : List UInt8) (m : Memory) :
    bytes address bs m = match m.check address bs.length with
      | .ok _ => .ok bs.length (m.write address.toNat bs)
      | .error f => .error (.fault f) m := by
  simp only [bytes, bind_apply, place_apply]
  cases m.check address bs.length <;> rfl

theorem bytes_eq (address : Int) (bs : List UInt8) :
    bytes address bs = replace fun m => (Image.loadBytes m address bs).mapError .fault := by
  funext m
  simp only [replace, Image.loadBytes, bytes_apply]
  cases m.check address bs.length <;> rfl

theorem font_eq (address : Int) :
    font address = replace fun m => ((Font.load m address).mapError .fault).map fun t => (t, ()) := by
  funext m
  simp only [replace, Font.load, font, place_apply]
  cases m.check address Font.bytes.length <;> rfl

/-- one check after the other, the first that fails being the last -/
theorem forM_inside (cs : Sparse) (m : Memory) :
    (forM cs fun c => inside c.1 1) m = match Image.checkCells m cs with
      | .ok _ => .ok () m
      | .error f => .error (.fault f) m := by
  induction cs with
  | nil => rfl
  | cons c cs ih =>
    rw [List.forM_cons, bind_apply, inside_apply, Image.checkCells]
    cases m.check c.1 with
    | error f => rfl
    | ok _ => exact ih

/-- one byte after the other, each at an address that memory has -/
theorem forM_put {cs : Sparse} (h : ∀ c ∈ cs, m.Holds c.1) :
    (forM cs fun c => modify fun m => m.put c.1 (UInt8.ofNat (c.2 % 256).toNat) : Loader PUnit) m =
      .ok () (cs.foldl (fun m c => m.write c.1.toNat [UInt8.ofNat (c.2 % 256).toNat]) m) := by
  induction cs generalizing m with
  | nil => rfl
  | cons c cs ih =>
    rw [List.forM_cons, bind_apply, modify_apply, Memory.put_eq_write (h c List.mem_cons_self)]
    refine ih fun d hd => ?_
    rw [Memory.Holds, Memory.size_write]
    exact h d (List.mem_cons_of_mem c hd)

theorem cells_eq (cs : Sparse) : cells cs = replace fun m => (Image.loadCells m cs).mapError .fault := by
  funext m
  simp only [cells, replace, Image.loadCells, bind_apply, forM_inside]
  cases hcheck : Image.checkCells m cs with
  | error f => rfl
  | ok _ =>
    simp only [forM_put (Image.checkCells_eq_ok_iff.1 hcheck)]
    rfl

/-- **In place, or from memory to memory.** A loader leaves what the loading of the image gives, and what was there if
it gives nothing. -/
theorem image_eq (address : Int) (im : Image) : image address im = replace fun m => im.load m address := by
  cases im with
  | raw bs => exact bytes_eq address bs
  | numbers values =>
    simp only [image, Image.load]
    cases Image.bytes? values with
    | some bs => exact bytes_eq address bs
    | none => rfl
  | sparse cs => exact cells_eq cs

/-! ## All or nothing -/

/-- if there is a reason to refuse, the loader is refused, leaves memory as it was and names the first address that
memory does not have; otherwise it has a result, and memory has the low bytes of the cells and its own otherwise -/
structure AllOrNothing {α : Type} (load : Loader α) (result : α) (refused : Prop) (cs : Sparse) (m : Memory) :
    Prop where
  fails_iff : (∃ e t, load m = .error e t) ↔ refused
  of_error : ∀ e t, load m = .error e t → t = m ∧
    ∃ a, e = .fault (.addressOutOfBounds a m.size) ∧ (cs ≠ [] → m.firstOutside? (cs.map Prod.fst) = some a)
  of_ok : ∀ r t, load m = .ok r t → r = result ∧ t.size = m.size ∧
    (∀ c ∈ cs, ((t.byte c.1.toNat).toNat : Int) = c.2 % 256) ∧
    ∀ k : Nat, (k : Int) ∉ cs.map Prod.fst → t.byte k = m.byte k

namespace AllOrNothing

variable {α : Type} {load : Loader α} {result : α} {refused : Prop} {cs : Sparse}

theorem of_refused {a : Int} (h : load m = .error (.fault (.addressOutOfBounds a m.size)) m) (hrefused : refused)
    (hfirst : cs ≠ [] → m.firstOutside? (cs.map Prod.fst) = some a) : AllOrNothing load result refused cs m where
  fails_iff := iff_of_true ⟨_, _, h⟩ hrefused
  of_error e t he := by
    rw [h] at he
    cases he
    exact ⟨rfl, a, rfl, hfirst⟩
  of_ok r t hr := by
    rw [h] at hr
    cases hr

theorem of_done (h : load m = .ok result t) (hrefused : ¬ refused) (hsize : t.size = m.size)
    (hcells : ∀ c ∈ cs, ((t.byte c.1.toNat).toNat : Int) = c.2 % 256)
    (hothers : ∀ k : Nat, (k : Int) ∉ cs.map Prod.fst → t.byte k = m.byte k) :
    AllOrNothing load result refused cs m where
  fails_iff := by
    refine iff_of_false ?_ hrefused
    rintro ⟨e, u, he⟩
    rw [h] at he
    cases he
  of_error e u he := by
    rw [h] at he
    cases he
  of_ok r u hr := by
    rw [h] at hr
    cases hr
    exact ⟨rfl, hsize, hcells, hothers⟩

/-- single cells, if no address comes twice -/
theorem cells (m : Memory) (hkeys : (cs.map Prod.fst).Nodup) :
    AllOrNothing (Loader.cells cs) cs.length (∃ c ∈ cs, ¬ m.Holds c.1) cs m := by
  have hload : Loader.cells cs m = match m.firstOutside? (cs.map Prod.fst) with
      | some a => .error (.fault (.addressOutOfBounds a m.size)) m
      | none => .ok cs.length (cs.foldl (fun m c => m.write c.1.toNat [UInt8.ofNat (c.2 % 256).toNat]) m) := by
    simp only [cells_eq, replace, Image.loadCells, Image.checkCells_eq]
    cases m.firstOutside? (cs.map Prod.fst) <;> rfl
  cases hfirst : m.firstOutside? (cs.map Prod.fst) with
  | some a =>
    rw [hfirst] at hload
    have houtside := List.find?_some hfirst
    obtain ⟨c, hc, rfl⟩ := List.mem_map.1 (List.mem_of_find?_eq_some hfirst)
    exact of_refused hload ⟨c, hc, by simpa using houtside⟩ fun _ => hfirst
  | none =>
    rw [hfirst] at hload
    have hin : ∀ c ∈ cs, m.Holds c.1 := by
      intro c hc
      have hc' := List.find?_eq_none.1 hfirst c.1 (List.mem_map_of_mem hc)
      simpa using hc'
    refine of_done hload ?_ (Image.size_foldl_write cs m) ?_ ?_
    · rintro ⟨c, hc, hout⟩
      exact hout (hin c hc)
    · intro c hc
      rw [Image.byte_foldl_write_of_mem hin hkeys hc, UInt8.toNat_ofNat']
      omega
    · intro k hk
      exact Image.byte_foldl_write_of_not_mem hin hk

/-- bytes in a run, which are cells one after the other -/
theorem run {address : Int} {bs : List UInt8} (hload : load m = match m.check address bs.length with
      | .ok _ => .ok result (m.write address.toNat bs)
      | .error f => .error (.fault f) m) :
    AllOrNothing load result (address < 0 ∨ m.size < address + bs.length) (Sparse.run address bs) m := by
  cases hcheck : m.check address bs.length with
  | error f =>
    rw [hcheck] at hload
    obtain ⟨hrefused, a, rfl⟩ := Memory.check_eq_error hcheck
    refine of_refused hload hrefused fun hne => ?_
    have hbs : bs ≠ [] := by
      rintro rfl
      exact hne rfl
    rw [← Image.checkCells_run m address hbs, Image.checkCells_eq] at hcheck
    cases hfirst : m.firstOutside? ((Sparse.run address bs).map Prod.fst) with
    | none =>
      rw [hfirst] at hcheck
      cases hcheck
    | some a' =>
      rw [hfirst] at hcheck
      cases hcheck
      rfl
  | ok _ =>
    rw [hcheck] at hload
    obtain ⟨hlow, hfits⟩ := Memory.check_eq_ok_iff.1 hcheck
    refine of_done hload (by omega) (m.size_write _ _) ?_ ?_
    · intro c hc
      obtain ⟨j, b, hb, rfl⟩ := Sparse.mem_run hc
      obtain ⟨hj, rfl⟩ := List.getElem?_eq_some_iff.1 hb
      have hplace : (address + j).toNat = address.toNat + j := by omega
      rw [hplace, Memory.byte_write_of_mem m j hj (by omega)]
      have hlt := (bs[j]).toNat_lt
      omega
    · intro k hk
      rw [Sparse.mem_keys_run] at hk
      exact Memory.byte_write_of_not_mem m (by omega)

variable (h : AllOrNothing load result refused cs m)
include h

/-- a loader that has a reason to refuse does, at the first address outside -/
theorem eq_error (hrefused : refused) {a : Int} (ha : m.firstOutside? (cs.map Prod.fst) = some a) :
    load m = .error (.fault (.addressOutOfBounds a m.size)) m := by
  obtain ⟨e, t, he⟩ := h.fails_iff.2 hrefused
  obtain ⟨rfl, a', rfl, hfirst⟩ := h.of_error e t he
  have hne : cs ≠ [] := by
    rintro rfl
    cases ha
  rw [hfirst hne] at ha
  cases ha
  exact he

/-- a loader that has none does its work -/
theorem exists_ok (hrefused : ¬ refused) : ∃ t, load m = .ok result t ∧ t.size = m.size ∧
    (∀ c ∈ cs, ((t.byte c.1.toNat).toNat : Int) = c.2 % 256) ∧
    ∀ k : Nat, (k : Int) ∉ cs.map Prod.fst → t.byte k = m.byte k := by
  cases hload : load m with
  | ok r t =>
    obtain ⟨rfl, hrest⟩ := h.of_ok r t hload
    exact ⟨t, rfl, hrest⟩
  | error e t => exact absurd (h.fails_iff.1 ⟨e, t, hload⟩) hrefused

end AllOrNothing

end Loader

/-- **Loaders do all or nothing.** Take any memory, any address and any data. A loader in place does what the loading
from memory to memory does. The font, bytes in a run and numbers that are bytes are refused if and only if the address
is negative or they go past the end of memory; single cells are refused if and only if memory does not have one of their
addresses. Then memory stays as it was, and if there is anything to load at all, the fault names the first address, in
the order of the request, that lies outside. Numbers that are not all bytes are refused as such. In every other case
memory has as many bytes as before, the low byte of each value at its address, and all other bytes as they were. -/
theorem loaders_all_or_nothing (m : Memory) (address : Int) :
    (Loader.font address = Loader.replace fun m => ((Font.load m address).mapError .fault).map fun t => (t, ())) ∧
    (∀ image, Loader.image address image = Loader.replace fun m => image.load m address) ∧
    Loader.AllOrNothing (Loader.font address) () (address < 0 ∨ m.size < address + Font.bytes.length)
      (Sparse.run address Font.bytes) m ∧
    (∀ bs, Loader.AllOrNothing (Loader.image address (.raw bs)) bs.length
      (address < 0 ∨ m.size < address + bs.length) (Sparse.run address bs) m) ∧
    (∀ bs : List UInt8, Loader.AllOrNothing (Loader.image address (.numbers (bs.map fun b => b.toNat))) bs.length
      (address < 0 ∨ m.size < address + bs.length) (Sparse.run address bs) m) ∧
    (∀ values : List Int, (∃ n ∈ values, n < 0 ∨ 256 ≤ n) →
      Loader.image address (.numbers values) m = .error .notBytes m) ∧
    ∀ cs : Sparse, (cs.map Prod.fst).Nodup →
      Loader.AllOrNothing (Loader.image address (.sparse cs)) cs.length (∃ c ∈ cs, ¬ m.Holds c.1) cs m := by
  refine ⟨Loader.font_eq address, Loader.image_eq address, ?_, ?_, ?_, ?_, ?_⟩
  · exact .run (Loader.place_apply address Font.bytes m)
  · intro bs
    exact .run (Loader.bytes_apply address bs m)
  · intro bs
    rw [Loader.image, Image.bytes?_toNat]
    exact .run (Loader.bytes_apply address bs m)
  · intro values hvalues
    rw [Loader.image, Image.bytes?_eq_none_iff.2 hvalues]
    rfl
  · intro cs hkeys
    exact .cells m hkeys

def Memory.four : Memory := ⟨#[1, 2, 3, 4]⟩

/-- cells and bytes are refused at their first address outside, and cells inside leave the rest as it was -/
theorem four_loads :
    Loader.image 2 (.sparse [(1, 7), (9, 1), (-1, 2)]) .four = .error (.fault (.addressOutOfBounds 9 4)) .four ∧
      Loader.image 2 (.raw [7, 8, 9]) .four = .error (.fault (.addressOutOfBounds 4 4)) .four ∧
      ∃ t, Loader.image 2 (.sparse [(3, 0x1FF), (0, -2)]) .four = .ok 2 t ∧
        t.byte 3 = 0xFF ∧ t.byte 0 = 0xFE ∧ t.byte 1 = 2 := by
  obtain ⟨-, -, -, hraw, -, -, hcells⟩ := loaders_all_or_nothing .four 2
  refine ⟨?_, ?_, ?_⟩
  · exact (hcells [(1, 7), (9, 1), (-1, 2)] (by decide)).eq_error (by decide) (by decide)
  · exact (hraw [7, 8, 9]).eq_error (by decide) (by decide)
  · obtain ⟨t, ht, -, hbytes, hothers⟩ := (hcells [(3, 0x1FF), (0, -2)] (by decide)).exists_ok (by decide)
    refine ⟨t, ht, ?_, ?_, ?_⟩
    · have hthree : ((t.byte 3).toNat : Int) = 0xFF := hbytes (3, 0x1FF) (by decide)
      exact UInt8.toNat_inj.1 (Int.ofNat_inj.1 hthree)
    · have hzero : ((t.byte 0).toNat : Int) = 0xFE := (hbytes (0, -2) (by decide)).trans (by decide)
      exact UInt8.toNat_inj.1 (Int.ofNat_inj.1 hzero)
    · exact hothers 1 (by decide)

end Chip8
