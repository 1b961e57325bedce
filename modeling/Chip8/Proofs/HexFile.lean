/-
What an Intel HEX file means, and that this is what is read from it. A file is a list of entries (`Entry`), each
written on a line that starts with a colon (`Entry.Written`), among other lines that may hold anything. Going through
the entries in order, data is put at a base address and an address of its own, over what was there; `meaning` is what
there is in the end.

- `Record.ofLine_of_written`: the record on a line is the entry written there.
- `readFrom_of_written`: from any place in a file on, what is read is what the rest of it means.
- `read_meaning`: a whole file.
-/
import Chip8.Proofs.Cells
import Chip8.Proofs.Hexadecimal

namespace Chip8.IntelHex

open Text Hex

/-! ## Entries -/

inductive Kind where
  | data
  /-- the end of the file -/
  | last
  /-- a base address, in units of 16 -/
  | segment
  | startSegment
  /-- a base address, in units of 65536 -/
  | linear
  | startLinear
  deriving DecidableEq, Repr

def Kind.code : Kind → UInt8
  | data => 0
  | last => 1
  | segment => 2
  | startSegment => 3
  | linear => 4
  | startLinear => 5

/-- an entry of a file; its length is written as one byte, and a base address has data to take it from -/
structure Entry where
  address : UInt16
  kind : Kind
  data : List UInt8
  length_lt : data.length < 256
  data_ne : kind = .segment ∨ kind = .linear → data ≠ []
  deriving DecidableEq, Repr

/-- the bytes that an entry is written as, before its checksum -/
def Entry.bytes (r : Entry) : List UInt8 :=
  UInt8.ofNat r.data.length :: UInt8.ofNat (r.address.toNat / 256) :: UInt8.ofNat (r.address.toNat % 256) ::
    r.kind.code :: r.data

theorem Entry.length_bytes (r : Entry) : r.bytes.length = r.data.length + 4 := rfl

/-- nothing, or a comment after a semicolon, with blanks before it or without -/
def IsRemark (cs : List Char) : Prop :=
  cs = [] ∨ ∃ space comment, cs = space ++ ';' :: comment ∧ ∀ c ∈ space, isBlank c = true

/-- the line says the entry: but for blanks at its ends it is a colon, the digit pairs of the entry's bytes and of a
checksum that makes the sum of all of them a multiple of 256, and maybe a comment -/
def Entry.Written (r : Entry) (line : List Char) : Prop :=
  ∃ (sum : UInt8) (digits remark : List Char), strip line = ':' :: (digits ++ remark) ∧
    Spells (halves (r.bytes ++ [sum])) digits ∧ total (r.bytes ++ [sum]) % 256 = 0 ∧ IsRemark remark

/-- whether a line starts with a colon, but for blanks -/
def opensRecord (line : List Char) : Bool := (strip line).head? = some ':'

/-! ## Meaning -/

/-- the byte at every address, if there is one -/
abbrev Contents := Int → Option UInt8

/-- bytes written from an address on, over what was there -/
def Contents.write (m : Contents) (address : Int) (bs : List UInt8) : Contents := fun a =>
  if address ≤ a ∧ a < address + bs.length then bs[(a - address).toNat]? else m a

/-- what there is after entries, from a base address and contents on: data is written at the base and its own address, a
base address replaces the one before it, and nothing counts after the end -/
def meaning (base : Int) (m : Contents) : List Entry → Contents
  | [] => m
  | r :: rs =>
    match r.kind with
    | .data => meaning base (m.write (base + r.address.toNat) r.data) rs
    | .last => m
    | .segment => meaning (bigEndian r.data * 0x10) m rs
    | .linear => meaning (bigEndian r.data * 0x10000) m rs
    | .startSegment | .startLinear => meaning base m rs

/-! ## Lines -/

/-- blanks after a text without blanks are taken off -/
theorem strip_append {c : Char} {cs space : List Char} (hcs : ∀ d ∈ c :: cs, isBlank d = false)
    (hspace : ∀ d ∈ space, isBlank d = true) : strip (c :: cs ++ space) = c :: cs := by
  have hfront : (c :: cs ++ space).dropWhile isBlank = c :: cs ++ space :=
    List.dropWhile_cons_of_neg (ne_true_of_eq_false (hcs c List.mem_cons_self))
  have hback : (c :: cs).reverse.dropWhile isBlank = (c :: cs).reverse := by
    rw [List.dropWhile_eq_self_iff]
    intro hlength
    exact ne_true_of_eq_false (hcs _ (List.mem_reverse.1 (List.getElem_mem hlength)))
  unfold strip trim
  rw [hfront, List.reverse_append, List.dropWhile_append_of_pos fun d hd => hspace d (List.mem_reverse.1 hd), hback,
    List.reverse_reverse]

/-- what is left of a line that an entry is written on is a colon and digits -/
theorem body_of_digits {line digits remark : List Char} {ns : List Nat} (hline : strip line = ':' :: (digits ++ remark))
    (hdigits : Spells ns digits) (hremark : IsRemark remark) : body line = ':' :: digits := by
  have hblank : ∀ c ∈ ':' :: digits, isBlank c = false :=
    List.forall_mem_cons.2 ⟨by decide, hdigits.forall IsDigit.not_blank⟩
  have hsemicolon : ';' ∉ ':' :: digits := by
    rw [List.mem_cons, not_or]
    refine ⟨by decide, fun hmem => hdigits.forall IsDigit.not_mark ';' hmem (by decide)⟩
  unfold body
  rw [hline, ← List.cons_append]
  rcases hremark with rfl | ⟨space, comment, rfl, hspace⟩
  · rw [List.append_nil]
    exact if_neg (by rwa [List.contains_iff_mem])
  · have hspace' : ';' ∉ space := by
      intro hmem
      exact absurd (hspace ';' hmem) (by decide)
    have hkept : (':' :: digits ++ (space ++ ';' :: comment)).takeWhile (· ≠ ';') = ':' :: digits ++ space := by
      rw [← List.append_assoc, List.takeWhile_append_of_pos, List.takeWhile_cons_of_neg, List.append_nil]
      · simp
      · intro c hc
        rw [decide_eq_true_eq]
        rintro rfl
        rcases List.mem_append.1 hc with hmem | hmem
        · exact hsemicolon hmem
        · exact hspace' hmem
    rw [if_pos (by simp), hkept]
    exact strip_append hblank hspace

/-- the digits of some of the bytes on a line -/
theorem slice_of_spells (before part rest : List UInt8) {digits : List Char} {start stop : Nat}
    (h : Spells (halves (before ++ part ++ rest)) digits) (hstart : start = 2 * before.length + 1)
    (hstop : stop = 2 * (before ++ part).length + 1) :
    Spells (halves part) (slice (':' :: digits) start stop).toList := by
  subst hstart hstop
  have hslice : (slice (':' :: digits) (2 * before.length + 1) (2 * (before ++ part).length + 1)).toList =
      (digits.take (2 * (before ++ part).length)).drop (2 * before.length) := by
    rw [slice, String.toList_ofList, List.take_succ_cons, List.drop_succ_cons]
  have hpart : ((halves (before ++ part ++ rest)).take (2 * (before ++ part).length)).drop (2 * before.length) =
      halves part := by
    rw [halves_append _ rest, List.take_left' (length_halves _), halves_append, List.drop_left' (length_halves _)]
  rw [hslice, ← hpart]
  exact List.forall₂_drop _ (List.forall₂_take _ h)

/-- the number that some of the bytes on a line stand for -/
theorem parse_slice_of_spells (before part rest : List UInt8) {digits : List Char} {start stop : Nat}
    (h : Spells (halves (before ++ part ++ rest)) digits) (hstart : start = 2 * before.length + 1)
    (hstop : stop = 2 * (before ++ part).length + 1) (hpart : part ≠ []) {value : Nat}
    (hvalue : bigEndian part = value) :
    Integer.parse 16 (slice (':' :: digits) start stop) = .ok (value : Int) := by
  rw [Integer.parse_of_spells_halves (slice_of_spells before part rest h hstart hstop) hpart, hvalue]

/-! ## Records -/

/-- a line that is long enough and can be read in all its parts holds a record, unless it has not as much data as it says
or the checksum is wrong -/
theorem Record.ofLine_of_parts {line : List Char} {length address kind expected : Int} {data : List UInt8}
    (number : Nat) (hlong : 11 ≤ line.length) (hlength : Integer.parse 16 (slice line 1 3) = .ok length)
    (haddress : Integer.parse 16 (slice line 3 7) = .ok address) (hkind : Integer.parse 16 (slice line 7 9) = .ok kind)
    (hexpected : Integer.parse 16 (slice line (line.length - 2) line.length) = .ok expected)
    (hdata : bytes (slice line 9 (line.length - 2)).toList = .ok data) :
    ofLine number line =
      if ((slice line 9 (line.length - 2)).length : Int) ≠ 2 * length then .error (.lengthMismatch number)
      else if checksum length address kind data ≠ expected then
        .error (.checksumMismatch number (checksum length address kind data) expected)
      else .ok { address, kind, digits := slice line 9 (line.length - 2), data } := by
  unfold ofLine
  simp only [if_neg (not_lt.2 hlong), hlength, haddress, hkind, hexpected, hdata, Except.mapError, bind, Except.bind]
  split_ifs <;> rfl

theorem total_append (bs cs : List UInt8) : total (bs ++ cs) = total bs + total cs := by
  induction bs with
  | nil => exact (Nat.zero_add _).symm
  | cons b bs ih =>
    change b.toNat + total (bs ++ cs) = b.toNat + total bs + total cs
    omega

theorem total_concat (bs : List UInt8) (b : UInt8) : total (bs ++ [b]) = total bs + b.toNat := total_append bs [b]

/-- the checksum fits if the sum of all bytes is a multiple of 256 -/
theorem checksum_eq_iff (count high low kind : UInt8) (data : List UInt8) (sum : UInt8) :
    checksum count.toNat (high.toNat * 256 + low.toNat : Nat) kind.toNat data = sum.toNat ↔
      total ([count, high, low, kind] ++ data ++ [sum]) % 256 = 0 := by
  have htotal : total ([count, high, low, kind] ++ data) =
      count.toNat + (high.toNat + (low.toNat + (kind.toNat + total data))) := rfl
  have hlow : low.toNat < 256 := low.toNat_lt
  have hsum : sum.toNat < 256 := sum.toNat_lt
  rw [total_concat, htotal]
  unfold checksum
  omega

/-- a line of digit pairs holds a record, unless its length or its checksum is wrong -/
theorem Record.ofLine_of_spells {count high low kind : UInt8} {data : List UInt8} {sum : UInt8} {cs : List Char}
    (h : Spells (halves ([count, high, low, kind] ++ data ++ [sum])) cs) (number : Nat) :
    ∃ digits : String, Spells (halves data) digits.toList ∧
      ofLine number (':' :: cs) =
        if count.toNat ≠ data.length then .error (.lengthMismatch number)
        else if checksum count.toNat (high.toNat * 256 + low.toNat : Nat) kind.toNat data ≠ sum.toNat then
          .error (.checksumMismatch number
            (checksum count.toNat (high.toNat * 256 + low.toNat : Nat) kind.toNat data) sum.toNat)
        else .ok { address := (high.toNat * 256 + low.toNat : Nat), kind := kind.toNat, digits, data } := by
  have hlong : (':' :: cs).length = 2 * data.length + 11 := by
    rw [List.length_cons, h.length, length_halves, List.length_append, List.length_append]
    simp only [List.length_cons, List.length_nil]
    omega
  have hlast : (':' :: cs).length - 2 = 2 * ([count, high, low, kind] ++ data).length + 1 := by
    rw [hlong, List.length_append]
    simp only [List.length_cons, List.length_nil]
    omega
  have hend : (':' :: cs).length = 2 * ([count, high, low, kind] ++ data ++ [sum]).length + 1 := by
    rw [hlong, List.length_append, List.length_append]
    simp only [List.length_cons, List.length_nil]
    omega
  have hdata : Spells (halves data) (slice (':' :: cs) 9 ((':' :: cs).length - 2)).toList :=
    slice_of_spells [count, high, low, kind] data [sum] h rfl hlast
  have hsize : (slice (':' :: cs) 9 ((':' :: cs).length - 2)).length = 2 * data.length := by
    rw [← String.length_toList, hdata.length, length_halves]
  have hlength : Integer.parse 16 (slice (':' :: cs) 1 3) = .ok (count.toNat : Int) :=
    parse_slice_of_spells [] [count] _ h rfl rfl nofun (bigEndian_byte count)
  have haddress : Integer.parse 16 (slice (':' :: cs) 3 7) = .ok ((high.toNat * 256 + low.toNat : Nat) : Int) :=
    parse_slice_of_spells [count] [high, low] (kind :: data ++ [sum]) h rfl rfl nofun (bigEndian_pair high low)
  have hkind : Integer.parse 16 (slice (':' :: cs) 7 9) = .ok (kind.toNat : Int) :=
    parse_slice_of_spells [count, high, low] [kind] (data ++ [sum]) h rfl rfl nofun (bigEndian_byte kind)
  have hexpected : Integer.parse 16 (slice (':' :: cs) ((':' :: cs).length - 2) (':' :: cs).length) =
      .ok (sum.toNat : Int) :=
    parse_slice_of_spells ([count, high, low, kind] ++ data) [sum] [] (by rwa [List.append_nil]) hlast hend nofun
      (bigEndian_byte sum)
  refine ⟨_, hdata, ?_⟩
  rw [ofLine_of_parts number (by omega) hlength haddress hkind hexpected (bytes_of_spells hdata)]
  refine if_congr ?_ rfl rfl
  rw [hsize]
  omega

/-- the record that an entry is read as, with its data as it is written -/
def Entry.record (r : Entry) (digits : String) : Record :=
  { address := r.address.toNat, kind := r.kind.code.toNat, digits, data := r.data }

/-- the record on a line is the entry written there -/
theorem Record.ofLine_of_written {r : Entry} {line : List Char} (h : r.Written line) (number : Nat) :
    ∃ digits : String, Spells (halves r.data) digits.toList ∧ ofLine number (body line) = .ok (r.record digits) := by
  obtain ⟨sum, cs, remark, hline, hcs, hsum, hremark⟩ := h
  have hbytes : r.bytes ++ [sum] =
      [UInt8.ofNat r.data.length, UInt8.ofNat (r.address.toNat / 256), UInt8.ofNat (r.address.toNat % 256),
        r.kind.code] ++ r.data ++ [sum] := rfl
  have hbody := body_of_digits hline hcs hremark
  rw [hbytes] at hcs hsum
  obtain ⟨digits, hdigits, hrecord⟩ := ofLine_of_spells hcs number
  have hcount : (UInt8.ofNat r.data.length).toNat = r.data.length := toNat_ofNat r.length_lt
  have hchecksum := (checksum_eq_iff _ _ _ _ _ _).2 hsum
  refine ⟨digits, hdigits, ?_⟩
  rw [hbody, hrecord, if_neg (not_not.2 hcount), if_neg (not_not.2 hchecksum), ← bigEndian_pair, bigEndian_word]
  rfl

/-! ## Contents -/

/-- bytes are written one after the other -/
theorem Contents.write_cons (m : Contents) (address : Int) (b : UInt8) (bs : List UInt8) :
    m.write address (b :: bs) = (m.write address [b]).write (address + 1) bs := by
  funext a
  unfold write
  rw [List.length_cons, List.length_singleton]
  rcases lt_trichotomy a address with hlt | rfl | hgt
  · rw [if_neg (by omega), if_neg (by omega), if_neg (by omega)]
  · rw [if_pos (by omega), if_neg (by omega), if_pos (by omega), Int.sub_self]
    rfl
  · have hnext : (a - address).toNat = (a - (address + 1)).toNat + 1 := by omega
    by_cases hin : a < address + (bs.length + 1 : Nat)
    · rw [if_pos (by omega), if_pos (by omega), hnext, List.getElem?_cons_succ]
    · rw [if_neg (by omega), if_neg (by omega), if_neg (by omega)]

/-- the cells that have been put are the contents -/
def Show (cells : Array (Int × Int)) (m : Contents) : Prop :=
  ∀ a, (Sparse.lastValues cells.toList)[a]? = (m a).map fun b => (b.toNat : Int)

theorem Show.push {cells : Array (Int × Int)} {m : Contents} (h : Show cells m) (address : Int) (b : UInt8) :
    Show (cells.push (address, b.toNat)) (m.write address [b]) := by
  intro a
  rw [Array.toList_push, Sparse.getElem?_lastValues_concat, Contents.write, List.length_singleton]
  by_cases heq : address = a
  · subst heq
    rw [if_pos rfl, if_pos (by omega), Int.sub_self]
    rfl
  · rw [if_neg heq, if_neg (by omega)]
    exact h a

/-- bytes put at consecutive addresses are bytes written there -/
theorem Show.putAll {cells : Array (Int × Int)} {m : Contents} (h : Show cells m) (address : Int) (bs : List UInt8) :
    Show (putAll cells address bs) (m.write address bs) := by
  induction bs generalizing cells m address with
  | nil =>
    intro a
    rw [Contents.write, if_neg (by simp)]
    exact h a
  | cons b bs ih =>
    rw [IntelHex.putAll, Contents.write_cons]
    exact ih (h.push address b) (address + 1)

/-! ## Files -/

/-- what an entry makes of the progress so far; nothing if it ends the file -/
def Entry.advance (r : Entry) (s : Progress) : Option Progress :=
  match r.kind with
  | .data => some { s with cells := putAll s.cells (s.base + r.address.toNat) r.data }
  | .last => none
  | .segment => some { s with base := bigEndian r.data * 0x10 }
  | .linear => some { s with base := bigEndian r.data * 0x10000 }
  | .startSegment | .startLinear => some s

/-- what the record of an entry makes of the progress so far is what the entry makes of it -/
theorem Progress.next_record {r : Entry} {digits : String} (hdigits : Spells (halves r.data) digits.toList)
    (number : Nat) (s : Progress) : s.next number (r.record digits) = .ok (r.advance s) := by
  have hbase (hne : r.data ≠ []) : (r.record digits).base = .ok (bigEndian r.data : Nat) := by
    rw [Record.base, Entry.record, Integer.parse_of_spells_halves hdigits hne]
    rfl
  have hscaled (unit : Int) (hne : r.data ≠ []) :
      (do return some { s with base := (← (r.record digits).base) * unit }) =
        Except.ok (some { s with base := bigEndian r.data * unit }) := by
    rw [hbase hne]
    rfl
  unfold next Entry.advance
  rw [show (r.record digits).kind = r.kind.code.toNat from rfl]
  cases hkind : r.kind with
  | segment => exact hscaled 0x10 (r.data_ne (.inl hkind))
  | linear => exact hscaled 0x10000 (r.data_ne (.inr hkind))
  | _ => rfl

/-- a line that an entry is written on opens a record, and reading goes on as the entry says -/
theorem readFrom_written {r : Entry} {line : List Char} (h : r.Written line) (number : Nat) (s : Progress)
    (rest : List (List Char)) :
    readFrom number s (line :: rest) =
      match r.advance s with
      | none => .ok s.image
      | some after => readFrom (number + 1) after rest := by
  have hopens : (strip line).head? = some ':' := by
    obtain ⟨sum, digits, remark, hline, -⟩ := h
    rw [hline]
    rfl
  obtain ⟨digits, hdigits, hrecord⟩ := Record.ofLine_of_written h number
  have hnext := Progress.next_record hdigits number s
  rw [readFrom, if_pos hopens, hrecord]
  simp only [bind, Except.bind, hnext]
  cases r.advance s <;> rfl

/-- a line without a record is read over -/
theorem readFrom_other {line : List Char} (h : opensRecord line = false) (number : Nat) (s : Progress)
    (rest : List (List Char)) : readFrom number s (line :: rest) = readFrom (number + 1) s rest := by
  rw [readFrom, if_neg (by simpa [opensRecord] using h)]

/-- an entry that ends the file leaves the contents as they are -/
theorem meaning_of_end {r : Entry} {s : Progress} (h : r.advance s = none) (base : Int) (m : Contents)
    (rs : List Entry) : meaning base m (r :: rs) = m := by
  unfold Entry.advance at h
  rw [meaning]
  cases hkind : r.kind with
  | last => rfl
  | _ =>
    rw [hkind] at h
    cases h

/-- an entry that does not end the file has the same effect on the contents as on the cells -/
theorem meaning_of_advance {r : Entry} {s after : Progress} {m : Contents} (h : r.advance s = some after)
    (hs : Show s.cells m) (rs : List Entry) :
    r.kind ≠ .last ∧ ∃ m', Show after.cells m' ∧ meaning s.base m (r :: rs) = meaning after.base m' rs := by
  unfold Entry.advance at h
  rw [meaning]
  cases hkind : r.kind with
  | last =>
    rw [hkind] at h
    cases h
  | data =>
    rw [hkind] at h
    cases h
    exact ⟨nofun, _, hs.putAll _ _, rfl⟩
  | _ =>
    rw [hkind] at h
    cases h
    exact ⟨nofun, m, hs, rfl⟩

/-- the image that the cells make is their contents -/
theorem Show.image {s : Progress} {m : Contents} (h : Show s.cells m) :
    (s.image.map Prod.fst).Nodup ∧ ∀ a, s.image.get? a = (m a).map fun b => (b.toNat : Int) := by
  refine ⟨Sparse.nodup_ofList _, fun a => ?_⟩
  rw [Progress.image, Sparse.get?_ofList]
  exact h a

/-- what is read from lines on is what the entries on them mean; what comes after an entry that ends the file does not
count. The induction is on the lines, and what has been read before them is carried along as contents -/
theorem readFrom_of_written {rs : List Entry} {lines back : List (List Char)} {s : Progress} {m : Contents}
    (h : List.Forall₂ Entry.Written rs (lines.filter opensRecord)) (hback : back = [] ∨ ∃ r ∈ rs, r.kind = .last)
    (hs : Show s.cells m) (number : Nat) :
    ∃ image, readFrom number s (lines ++ back) = .ok image ∧ (image.map Prod.fst).Nodup ∧
      ∀ a, image.get? a = (meaning s.base m rs a).map fun b => (b.toNat : Int) := by
  induction lines generalizing rs s m number with
  | nil =>
    cases h
    obtain rfl : back = [] := hback.resolve_right (by simp)
    exact ⟨s.image, rfl, hs.image⟩
  | cons line lines ih =>
    rw [List.cons_append]
    cases hopens : opensRecord line with
    | false =>
      rw [List.filter_cons_of_neg (ne_true_of_eq_false hopens)] at h
      rw [readFrom_other hopens]
      exact ih h hback hs (number + 1)
    | true =>
      rw [List.filter_cons_of_pos hopens] at h
      obtain ⟨r, rs, hwritten, hrest, rfl⟩ := List.forall₂_cons_right_iff.1 h
      rw [readFrom_written hwritten]
      cases hadvance : r.advance s with
      | none =>
        rw [meaning_of_end hadvance]
        exact ⟨s.image, rfl, hs.image⟩
      | some after =>
        obtain ⟨hkind, m', hafter, hmeaning⟩ := meaning_of_advance hadvance hs rs
        rw [hmeaning]
        refine ih hrest ?_ hafter (number + 1)
        rcases hback with hnone | ⟨r', hmem, hlast⟩
        · exact .inl hnone
        · rcases List.mem_cons.1 hmem with rfl | hmem
          · exact absurd hlast hkind
          · exact .inr ⟨r', hmem, hlast⟩

/-- **What is read from a file is what it means.** Every line that starts with a colon has an entry written on it, of
any length and address and with digits of either case; other lines hold anything. Then the file is read without an
error, and the image names every address once, with the byte that the meaning of the entries has there and nowhere else.
After the entry that ends the file more lines may follow, whatever they hold. -/
theorem read_meaning {rs : List Entry} {lines back : List (List Char)}
    (h : List.Forall₂ Entry.Written rs (lines.filter opensRecord)) (hback : back = [] ∨ ∃ r ∈ rs, r.kind = .last) :
    ∃ image, read (lines ++ back) = .ok image ∧ (image.map Prod.fst).Nodup ∧
      ∀ a, image.get? a = (meaning 0 (fun _ => none) rs a).map fun b => (b.toNat : Int) := by
  have hempty : Show #[] fun _ => none := by
    intro a
    exact Std.HashMap.getElem?_empty
  exact readFrom_of_written h hback hempty 1

/-- a base address, two bytes, one of them once more, and the end -/
def sampleEntries : List Entry := [
  ⟨0, .segment, [0x10, 0x00], by decide, by decide⟩, ⟨0x0100, .data, [0x12, 0xF0], by decide, by decide⟩,
  ⟨0x0101, .data, [0xAB], by decide, by decide⟩, ⟨0, .last, [], by decide, by decide⟩]

/-- the file that says so, with a line that is no record -/
def sampleLines : List (List Char) := [
  "; sample".toList, ":020000021000EC".toList, "  :0201000012F0FB ; first".toList, ":01010100ab52".toList,
  ":00000001FF;".toList]

/-- the sample is read, though its last line is broken; the byte written last is there -/
theorem sample_read :
    ∃ image, read (sampleLines ++ [":broken".toList]) = .ok image ∧ (image.map Prod.fst).Nodup ∧
      image.get? 0x10100 = some 0x12 ∧ image.get? 0x10101 = some 0xAB ∧ image.get? 0x100 = none := by
  have hlines : sampleLines.filter opensRecord = sampleLines.drop 1 := by decide
  have hwritten : List.Forall₂ Entry.Written sampleEntries (sampleLines.drop 1) := by
    refine .cons ?_ (.cons ?_ (.cons ?_ (.cons ?_ .nil)))
    · exact ⟨0xEC, "020000021000EC".toList, [], by decide, by decide, by decide, .inl rfl⟩
    · exact ⟨0xFB, "0201000012F0FB".toList, " ; first".toList, by decide, by decide, by decide,
        .inr ⟨[' '], " first".toList, rfl, List.forall_mem_singleton.2 rfl⟩⟩
    · exact ⟨0x52, "01010100ab52".toList, [], by decide, by decide, by decide, .inl rfl⟩
    · exact ⟨0xFF, "00000001FF".toList, [';'], by decide, by decide, by decide, .inr ⟨[], [], rfl, nofun⟩⟩
  rw [← hlines] at hwritten
  obtain ⟨image, hread, hnodup, hmeaning⟩ := read_meaning hwritten (.inr (by decide) : [":broken".toList] = [] ∨ _)
  refine ⟨image, hread, hnodup, ?_, ?_, ?_⟩
  · rw [hmeaning]
    decide
  · rw [hmeaning]
    decide
  · rw [hmeaning]
    decide

end Chip8.IntelHex
