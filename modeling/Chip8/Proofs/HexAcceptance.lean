/-
What a record that is accepted looks like. A file is read from its lines up to the one that ends it (`upToEnd`), and
each of them that opens a record must hold one whose fields can be read, with as many characters of data as its length
says and with the right checksum (`Record.Fields`).

Numbers may be written with a sign, with underscores, with the digits of other scripts and with blanks around them, and
data with gaps, so not every line that is accepted has an entry written on it. But every one does that holds nothing
except hexadecimal digits after the colon.

- `Record.ofLine_eq_ok`: when a record is read from a line.
- `written_of_fields`: a record made of digits only is an entry.
- `accepted_of_readFrom`: a file that is read has been accepted line by line.
- `read_accepts`: both together, and what is so of every line.
-/
import Chip8.Proofs.Act
import Chip8.Proofs.HexFile

namespace Chip8

open Text

/-! ## Digits -/

namespace Hex

/-- a character from one place in the code to another has a number between theirs -/
theorem toNat_between {low c high : Char} (h : low ≤ c ∧ c ≤ high) : low.toNat ≤ c.toNat ∧ c.toNat ≤ high.toNat :=
  ⟨UInt32.le_iff_toNat_le.1 (Char.le_def.1 h.1), UInt32.le_iff_toNat_le.1 (Char.le_def.1 h.2)⟩

/-- what is read as a digit is the digit of that value -/
theorem isDigit_of_hexValue {c : Char} {n : Nat} (h : IntelHex.hexValue? c = some n) : IsDigit n c := by
  unfold IntelHex.hexValue? at h
  split_ifs at h with hdecimal hlower hupper
  · obtain ⟨hlow, hhigh⟩ : 48 ≤ c.toNat ∧ c.toNat ≤ 57 := toNat_between hdecimal
    obtain rfl := Option.some.inj h
    refine ⟨by omega, .inl ?_⟩
    rw [upperDigit, if_pos (by omega), Nat.add_sub_cancel' hlow, Char.ofNat_toNat]
  · obtain ⟨hlow, hhigh⟩ : 97 ≤ c.toNat ∧ c.toNat ≤ 102 := toNat_between hlower
    obtain rfl := Option.some.inj h
    refine ⟨by omega, .inr ?_⟩
    rw [lowerDigit, if_neg (by omega), Nat.add_sub_cancel' (by omega), Char.ofNat_toNat]
  · obtain ⟨hlow, hhigh⟩ : 65 ≤ c.toNat ∧ c.toNat ≤ 70 := toNat_between hupper
    obtain rfl := Option.some.inj h
    refine ⟨by omega, .inl ?_⟩
    rw [upperDigit, if_neg (by omega), Nat.add_sub_cancel' (by omega), Char.ofNat_toNat]

/-- an even number of digits spells bytes -/
theorem exists_spells_halves {cs : List Char} (hdigits : ∀ c ∈ cs, (IntelHex.hexValue? c).isSome) (k : Nat)
    (hlength : cs.length = 2 * k) : ∃ bs : List UInt8, Spells (halves bs) cs := by
  induction k generalizing cs with
  | zero =>
    obtain rfl := List.eq_nil_of_length_eq_zero hlength
    exact ⟨[], .nil⟩
  | succ k ih =>
    obtain ⟨c, rest, rfl⟩ := List.exists_cons_of_length_eq_add_one (hlength.trans (Nat.mul_succ 2 k))
    obtain ⟨d, rest, rfl⟩ := List.exists_cons_of_length_eq_add_one (Nat.succ.inj hlength)
    obtain ⟨hc, hd, hrest⟩ : _ ∧ _ ∧ ∀ e ∈ rest, _ := by simpa [List.forall_mem_cons] using hdigits
    obtain ⟨high, hhigh⟩ := Option.isSome_iff_exists.1 hc
    obtain ⟨low, hlow⟩ := Option.isSome_iff_exists.1 hd
    obtain ⟨bs, hbs⟩ := ih hrest (Nat.succ.inj (Nat.succ.inj hlength))
    have hhigh := isDigit_of_hexValue hhigh
    have hlow := isDigit_of_hexValue hlow
    have hlt := hhigh.1
    have hlt' := hlow.1
    have hbyte : (UInt8.ofNat (high * 16 + low)).toNat = high * 16 + low := toNat_ofNat (by omega)
    refine ⟨UInt8.ofNat (high * 16 + low) :: bs, ?_⟩
    rw [halves_cons, hbyte, show (high * 16 + low) / 16 = high by omega, show (high * 16 + low) % 16 = low by omega]
    exact .cons hhigh (.cons hlow hbs)

end Hex

namespace IntelHex

open Act Hex

/-! ## Records -/

/-- the fields of a record as they are read from a line, and what is asked of them -/
structure Record.Fields (r : Record) (line : List Char) (length expected : Int) : Prop where
  long : 11 ≤ line.length
  length_eq : Integer.parse 16 (slice line 1 3) = .ok length
  address_eq : Integer.parse 16 (slice line 3 7) = .ok r.address
  kind_eq : Integer.parse 16 (slice line 7 9) = .ok r.kind
  expected_eq : Integer.parse 16 (slice line (line.length - 2) line.length) = .ok expected
  digits_eq : r.digits = slice line 9 (line.length - 2)
  count : (r.digits.length : Int) = 2 * length
  data_eq : bytes r.digits.toList = .ok r.data
  checksum_eq : checksum length r.address r.kind r.data = expected

/-- a record is read from a line if its fields are there and fit together; the number of the line does not matter -/
theorem Record.ofLine_eq_ok {number : Nat} {line : List Char} {r : Record} :
    ofLine number line = .ok r ↔ ∃ length expected, r.Fields line length expected := by
  constructor
  · intro h
    unfold ofLine at h
    obtain ⟨hlong, h⟩ := refusal_eq_ok.1 h
    obtain ⟨length, hlength, h⟩ := ok_of_bind h
    obtain ⟨address, haddress, h⟩ := ok_of_bind h
    obtain ⟨kind, hkind, h⟩ := ok_of_bind h
    obtain ⟨expected, hexpected, h⟩ := ok_of_bind h
    obtain ⟨hcount, h⟩ := refusal_eq_ok.1 h
    obtain ⟨data, hdata, h⟩ := ok_of_bind h
    obtain ⟨hchecksum, h⟩ := refusal_eq_ok.1 h
    cases h
    exact ⟨length, expected, not_lt.1 hlong, ok_of_mapError hlength, ok_of_mapError haddress, ok_of_mapError hkind,
      ok_of_mapError hexpected, rfl, not_not.1 hcount, ok_of_mapError hdata, not_not.1 hchecksum⟩
  · rintro ⟨length, expected, h⟩
    have hdigits := h.digits_eq
    have hline := ofLine_of_parts number h.long h.length_eq h.address_eq h.kind_eq h.expected_eq (hdigits ▸ h.data_eq)
    rw [hline, ← hdigits, if_neg (not_not.2 h.count), if_neg (not_not.2 h.checksum_eq)]

/-- every byte takes two characters, and gaps take the others -/
theorem two_mul_length_pairs {position : Nat} {cs : List Char} {bs : List UInt8} (h : pairs position cs = .ok bs) :
    2 * bs.length + cs.countP isGap = cs.length := by
  fun_induction pairs position cs generalizing bs with
  | case1 =>
    cases h
    rfl
  | case2 position c cs hgap ih =>
    rw [List.countP_cons_of_pos hgap, List.length_cons, ← ih h]
    omega
  | case6 position c hc high d cs hhigh low hlow ih =>
    obtain ⟨bs, hbs, h⟩ := ok_of_bind h
    cases h
    have hd : isGap d = false := (isDigit_of_hexValue hlow).not_gap
    rw [List.countP_cons_of_neg hc, List.countP_cons_of_neg (ne_true_of_eq_false hd), List.length_cons,
      List.length_cons, List.length_cons, ← ih hbs]
    omega
  | _ => cases h

theorem two_mul_length_bytes {cs : List Char} {bs : List UInt8} (h : bytes cs = .ok bs) :
    2 * bs.length + cs.countP isGap = cs.length := by
  unfold bytes at h
  split at h
  · cases h
  · exact two_mul_length_pairs h

/-- five bytes or more are a length, an address of two, a kind, data and one after it -/
theorem exists_layout {bs : List UInt8} {n : Nat} (h : bs.length = n + 5) :
    ∃ count high low kind data sum, bs = [count, high, low, kind] ++ data ++ [sum] ∧ data.length = n := by
  obtain ⟨count, bs, rfl⟩ := List.exists_cons_of_length_eq_add_one h
  obtain ⟨high, bs, rfl⟩ := List.exists_cons_of_length_eq_add_one (Nat.succ.inj h)
  obtain ⟨low, bs, rfl⟩ := List.exists_cons_of_length_eq_add_one (Nat.succ.inj (Nat.succ.inj h))
  obtain ⟨kind, bs, rfl⟩ := List.exists_cons_of_length_eq_add_one (Nat.succ.inj (Nat.succ.inj (Nat.succ.inj h)))
  obtain rfl | ⟨data, sum, hrest⟩ := List.eq_nil_or_concat bs
  · cases h
  rw [List.concat_eq_append] at hrest
  refine ⟨count, high, low, kind, data, sum, congrArg (count :: high :: low :: kind :: ·) hrest, ?_⟩
  rw [hrest] at h
  simp only [List.length_cons, List.length_append, List.length_nil] at h
  omega

namespace Record.Fields

variable {r : Record} {line cs : List Char} {length expected : Int}

/-- a line has eleven characters besides its data, and two for each byte that it says it has -/
theorem length_line (h : r.Fields line length expected) :
    ∃ n : Nat, length = n ∧ line.length = 2 * n + 11 ∧ r.digits.length = 2 * n := by
  have hlong := h.long
  have hcount := h.count
  have hdigits : r.digits.length = line.length - 11 := by
    rw [h.digits_eq, slice, String.length_ofList, List.length_drop, List.length_take]
    omega
  exact ⟨length.toNat, by omega, by omega, by omega⟩

/-- a record on a line of digits is made of bytes: the length of the data, the address, the kind, the data, and one that
makes their sum a multiple of 256 -/
theorem exists_bytes (h : r.Fields (':' :: cs) length expected) (hdigits : ∀ c ∈ cs, (hexValue? c).isSome) :
    ∃ count high low kind sum : UInt8, Spells (halves ([count, high, low, kind] ++ r.data ++ [sum])) cs ∧
      Spells (halves r.data) r.digits.toList ∧ count.toNat = r.data.length ∧ length = r.data.length ∧
      r.address = (high.toNat * 256 + low.toNat : Nat) ∧ r.kind = kind.toNat ∧
      total ([count, high, low, kind] ++ r.data ++ [sum]) % 256 = 0 := by
  obtain ⟨n, rfl, hline, -⟩ := h.length_line
  have hcs : cs.length = 2 * (n + 5) := by
    rw [List.length_cons] at hline
    omega
  obtain ⟨bs, hbs⟩ := exists_spells_halves hdigits (n + 5) hcs
  have hlength : bs.length = n + 5 := by
    have := hbs.length
    rw [length_halves] at this
    omega
  obtain ⟨count, high, low, kind, data, sum, rfl, hdata⟩ := exists_layout hlength
  have hr : ofLine 0 (':' :: cs) = .ok r := ofLine_eq_ok.2 ⟨_, expected, h⟩
  obtain ⟨digits, hspells, hrecord⟩ := ofLine_of_spells hbs 0
  rw [hr] at hrecord
  split_ifs at hrecord with hcount hchecksum
  obtain rfl := Except.ok.inj hrecord
  exact ⟨count, high, low, kind, sum, hbs, hspells, not_not.1 hcount, congrArg Nat.cast hdata.symm, rfl, rfl,
    (checksum_eq_iff _ _ _ _ _ _).1 (not_not.1 hchecksum)⟩

end Record.Fields

/-! ## Lines -/

/-- blanks at the end are all that is taken off a text that starts with no blank -/
theorem exists_space_of_strip {c : Char} (cs : List Char) (hc : isBlank c = false) :
    ∃ kept space, strip (c :: cs) = c :: kept ∧ cs = kept ++ space ∧ ∀ d ∈ space, isBlank d = true := by
  have hfront : (c :: cs).dropWhile isBlank = c :: cs := List.dropWhile_cons_of_neg (ne_true_of_eq_false hc)
  have hstrip : strip (c :: cs) = ((c :: cs).reverse.dropWhile isBlank).reverse := by
    rw [strip, trim, hfront]
  have hsplit : c :: cs = strip (c :: cs) ++ ((c :: cs).reverse.takeWhile isBlank).reverse := by
    rw [hstrip, ← List.reverse_append, List.takeWhile_append_dropWhile, List.reverse_reverse]
  have hspace : ∀ d ∈ ((c :: cs).reverse.takeWhile isBlank).reverse, isBlank d = true := by
    intro d hd
    exact List.mem_takeWhile_imp (List.mem_reverse.1 hd)
  cases hkept : strip (c :: cs) with
  | nil =>
    rw [hkept, List.nil_append] at hsplit
    have hblank := hspace c (hsplit ▸ List.mem_cons_self)
    exact absurd hblank (ne_true_of_eq_false hc)
  | cons d kept =>
    rw [hkept] at hsplit
    obtain ⟨rfl, hrest⟩ := List.cons.inj hsplit
    exact ⟨kept, _, rfl, hrest, hspace⟩

/-- a line that opens a record is, but for blanks at its ends, a colon, what follows it, and maybe a comment -/
theorem exists_remark_of_opens {line : List Char} (h : opensRecord line = true) :
    ∃ cs remark, body line = ':' :: cs ∧ strip line = ':' :: (cs ++ remark) ∧ IsRemark remark := by
  obtain ⟨rest, hline⟩ : ∃ rest, strip line = ':' :: rest := by
    have hhead : (strip line).head? = some ':' := of_decide_eq_true h
    exact List.head?_eq_some_iff.1 hhead
  unfold body
  rw [hline]
  by_cases hcomment : (':' :: rest).contains ';' = true
  · rw [if_pos hcomment]
    have hmem : ';' ∈ rest := (List.mem_cons.1 (List.contains_iff_mem.1 hcomment)).resolve_left (by decide)
    obtain ⟨before, comment, rfl, hbefore⟩ := List.eq_append_cons_of_mem hmem
    have hfirst : (':' :: (before ++ ';' :: comment)).takeWhile (· ≠ ';') = ':' :: before := by
      rw [← List.cons_append, List.takeWhile_append_of_pos, List.takeWhile_cons_of_neg (by simp), List.append_nil]
      intro c hc
      rw [decide_eq_true_eq]
      rintro rfl
      exact (List.mem_cons.1 hc).elim (by decide) hbefore
    obtain ⟨kept, space, hkept, hspace, hblank⟩ := exists_space_of_strip (c := ':') before (by decide)
    refine ⟨kept, space ++ ';' :: comment, ?_, ?_, .inr ⟨space, comment, rfl, hblank⟩⟩
    · rw [hfirst, hkept]
    · rw [← List.append_assoc, ← hspace]
  · exact ⟨rest, [], if_neg hcomment, by rw [List.append_nil], .inl rfl⟩

/-! ## Entries -/

/-- every number below six is the code of a kind -/
theorem Kind.exists_code {n : Nat} (h : n < 6) : ∃ kind : Kind, kind.code.toNat = n := by
  match n, h with
  | 0, _ => exact ⟨.data, rfl⟩
  | 1, _ => exact ⟨.last, rfl⟩
  | 2, _ => exact ⟨.segment, rfl⟩
  | 3, _ => exact ⟨.startSegment, rfl⟩
  | 4, _ => exact ⟨.linear, rfl⟩
  | 5, _ => exact ⟨.startLinear, rfl⟩

/-- a record that reading can go on after, or end with: it is of one of the six kinds, and a base address has data -/
structure Record.Known (r : Record) : Prop where
  kind_nonneg : 0 ≤ r.kind
  kind_lt : r.kind < 6
  digits_ne : r.kind = 2 ∨ r.kind = 4 → r.digits ≠ ""

/-- nothing is no number -/
theorem Record.digits_ne_of_base {r : Record} {base : Int} (h : r.base = .ok base) : r.digits ≠ "" := by
  intro hnone
  rw [Record.base, hnone] at h
  cases h

/-- reading goes on after records that are known, and ends with those of kind 1 -/
theorem Progress.known_of_next {s : Progress} {number : Nat} {r : Record} {after : Option Progress}
    (h : s.next number r = .ok after) : r.Known ∧ (after = none ↔ r.kind = 1) := by
  unfold next at h
  split at h
  case h_3 hkind | h_5 hkind =>
    obtain ⟨base, hbase, h⟩ := ok_of_bind h
    cases h
    exact ⟨⟨by omega, by omega, fun _ => Record.digits_ne_of_base hbase⟩, by simp [hkind]⟩
  case h_7 => cases h
  all_goals
    next hkind =>
      cases h
      exact ⟨⟨by omega, by omega, fun hbase => absurd hbase (by omega)⟩, by simp [hkind]⟩

/-- an accepted record that is made of digits is an entry written on the line -/
theorem written_of_fields {line : List Char} {r : Record} {length expected : Int} (hopens : opensRecord line = true)
    (h : r.Fields (body line) length expected) (hknown : r.Known)
    (hdigits : ∀ c ∈ (body line).tail, (hexValue? c).isSome) :
    ∃ e : Entry, e.Written line ∧ r = e.record r.digits ∧ length = e.data.length := by
  obtain ⟨cs, remark, hbody, hline, hremark⟩ := exists_remark_of_opens hopens
  rw [hbody] at h hdigits
  obtain ⟨count, high, low, kind, sum, hspells, hdata, hcount, hlength, haddress, hkind, htotal⟩ :=
    h.exists_bytes hdigits
  have hnonneg := hknown.kind_nonneg
  have hlt := hknown.kind_lt
  obtain ⟨k, hk⟩ := Kind.exists_code (n := kind.toNat) (by omega)
  have hhigh : high.toNat < 256 := high.toNat_lt
  have hlow : low.toNat < 256 := low.toNat_lt
  have hcode : k.code = kind := UInt8.toNat_inj.1 hk
  have hword : (UInt16.ofNat (high.toNat * 256 + low.toNat)).toNat = high.toNat * 256 + low.toNat :=
    UInt16.toNat_ofNat_of_lt' (show _ < 65536 by omega)
  have hne : k = .segment ∨ k = .linear → r.data ≠ [] := by
    rintro hbase hempty
    rw [hempty] at hdata
    have hnone : r.digits = "" := String.toList_inj.1 (List.forall₂_nil_left_iff.1 hdata)
    refine hknown.digits_ne ?_ hnone
    rw [hkind, ← hcode]
    rcases hbase with rfl | rfl
    · exact .inl rfl
    · exact .inr rfl
  obtain ⟨e, haddr, hk, hd⟩ : ∃ e : Entry, e.address = UInt16.ofNat (high.toNat * 256 + low.toNat) ∧ e.kind = k ∧
      e.data = r.data := ⟨⟨_, k, r.data, hcount ▸ count.toNat_lt, hne⟩, rfl, rfl, rfl⟩
  have hbytes : e.bytes = [count, high, low, kind] ++ r.data := by
    have hlength : UInt8.ofNat r.data.length = count := by rw [← hcount, UInt8.ofNat_toNat]
    have hfirst : UInt8.ofNat ((high.toNat * 256 + low.toNat) / 256) = high := by
      rw [show (high.toNat * 256 + low.toNat) / 256 = high.toNat by omega, UInt8.ofNat_toNat]
    have hsecond : UInt8.ofNat ((high.toNat * 256 + low.toNat) % 256) = low := by
      rw [show (high.toNat * 256 + low.toNat) % 256 = low.toNat by omega, UInt8.ofNat_toNat]
    rw [Entry.bytes, hd, haddr, hk, hword, hlength, hfirst, hsecond, hcode]
    rfl
  refine ⟨e, ⟨sum, cs, remark, hline, ?_, ?_, hremark⟩, ?_, by rw [hlength, hd]⟩
  · rwa [hbytes]
  · rwa [hbytes]
  · rw [Entry.record, haddr, hk, hd, hword, hcode, ← haddress, ← hkind]

/-! ## Files -/

/-- the line holds a record that ends the file -/
def closesFile (line : List Char) : Bool :=
  opensRecord line && match Record.ofLine 0 (body line) with
    | .ok r => r.kind = 1
    | .error _ => false

/-- the lines up to the first that ends the file, and that one -/
def upToEnd : List (List Char) → List (List Char)
  | [] => []
  | line :: rest => if closesFile line then [line] else line :: upToEnd rest

theorem closesFile_of_accepted {line : List Char} {number : Nat} {r : Record} (hopens : opensRecord line = true)
    (h : Record.ofLine number (body line) = .ok r) : closesFile line = decide (r.kind = 1) := by
  have hzero : Record.ofLine 0 (body line) = .ok r := Record.ofLine_eq_ok.2 (Record.ofLine_eq_ok.1 h)
  rw [closesFile, hopens, hzero, Bool.true_and]

theorem not_closesFile_of_other {line : List Char} (h : opensRecord line = false) : closesFile line = false := by
  rw [closesFile, h, Bool.false_and]

/-- if lines are read, then those up to the end that open a record hold one that is known -/
theorem accepted_of_readFrom {number : Nat} {s : Progress} {lines : List (List Char)} {image : Sparse}
    (h : readFrom number s lines = .ok image) {line : List Char} (hmem : line ∈ upToEnd lines)
    (hopens : opensRecord line = true) :
    ∃ r length expected, r.Known ∧ Record.Fields r (body line) length expected := by
  induction lines generalizing number s with
  | nil => cases hmem
  | cons first rest ih =>
    rw [upToEnd] at hmem
    cases hfirst : opensRecord first with
    | false =>
      rw [readFrom_other hfirst] at h
      rw [not_closesFile_of_other hfirst, if_neg Bool.false_ne_true] at hmem
      rcases List.mem_cons.1 hmem with rfl | hmem
      · exact absurd hopens (ne_true_of_eq_false hfirst)
      · exact ih h hmem
    | true =>
      rw [readFrom, if_pos (of_decide_eq_true hfirst)] at h
      obtain ⟨r, hr, h⟩ := ok_of_bind h
      obtain ⟨after, hafter, h⟩ := ok_of_bind h
      obtain ⟨hknown, hlast⟩ := Progress.known_of_next hafter
      obtain ⟨length, expected, hfields⟩ := Record.ofLine_eq_ok.1 hr
      rw [closesFile_of_accepted hfirst hr] at hmem
      cases after with
      | none =>
        rw [if_pos (decide_eq_true (hlast.1 rfl)), List.mem_singleton] at hmem
        exact ⟨r, length, expected, hknown, hmem ▸ hfields⟩
      | some after =>
        have hgoes : ¬ r.kind = 1 := fun hkind => Option.some_ne_none after (hlast.2 hkind)
        rw [if_neg (by simpa using hgoes)] at hmem
        rcases List.mem_cons.1 hmem with rfl | hmem
        · exact ⟨r, length, expected, hknown, hfields⟩
        · exact ih h hmem

/-- the lines that are not read come after one that ends the file -/
theorem exists_back (lines : List (List Char)) :
    ∃ back, lines = upToEnd lines ++ back ∧ (back = [] ∨ ∃ line ∈ upToEnd lines, closesFile line = true) := by
  induction lines with
  | nil => exact ⟨[], rfl, .inl rfl⟩
  | cons first rest ih =>
    rw [upToEnd]
    by_cases hcloses : closesFile first = true
    · rw [if_pos hcloses]
      exact ⟨rest, rfl, .inr ⟨first, List.mem_singleton_self _, hcloses⟩⟩
    · rw [if_neg hcloses]
      obtain ⟨back, hback, hend⟩ := ih
      refine ⟨back, by rw [List.cons_append, ← hback], hend.imp_right ?_⟩
      rintro ⟨line, hmem, hline⟩
      exact ⟨line, List.mem_cons_of_mem _ hmem, hline⟩

theorem closesFile_of_written {e : Entry} {line : List Char} (h : e.Written line) :
    closesFile line = decide (e.kind = .last) := by
  have hopens : opensRecord line = true := by
    obtain ⟨sum, digits, remark, hline, -⟩ := h
    rw [opensRecord, hline]
    rfl
  obtain ⟨digits, -, hr⟩ := Record.ofLine_of_written h 0
  rw [closesFile_of_accepted hopens hr, Entry.record]
  cases e.kind <;> rfl

/-- lines with an entry each are lines of entries; if one of them ends the file, so does one of the entries -/
theorem exists_entries {lines : List (List Char)} (h : ∀ line ∈ lines, ∃ e : Entry, e.Written line) :
    ∃ es, List.Forall₂ Entry.Written es lines ∧
      ((∃ line ∈ lines, closesFile line = true) → ∃ e ∈ es, e.kind = .last) := by
  induction lines with
  | nil => exact ⟨[], .nil, fun ⟨_, hmem, _⟩ => nomatch hmem⟩
  | cons first rest ih =>
    obtain ⟨e, he⟩ := h first List.mem_cons_self
    obtain ⟨es, hes, hlast⟩ := ih fun line hmem => h line (List.mem_cons_of_mem _ hmem)
    refine ⟨e :: es, .cons he hes, ?_⟩
    rintro ⟨line, hmem, hcloses⟩
    rcases List.mem_cons.1 hmem with rfl | hmem
    · rw [closesFile_of_written he] at hcloses
      exact ⟨e, List.mem_cons_self, of_decide_eq_true hcloses⟩
    · obtain ⟨e', hmem', hkind⟩ := hlast ⟨line, hmem, hcloses⟩
      exact ⟨e', List.mem_cons_of_mem _ hmem', hkind⟩

/-- entries never put anything below a base that is not negative -/
theorem meaning_of_neg {base : Int} (hbase : 0 ≤ base) {m : Contents} {a : Int} (ha : a < 0) (hm : m a = none)
    (es : List Entry) : meaning base m es a = none := by
  induction es generalizing base m with
  | nil => exact hm
  | cons e es ih =>
    rw [meaning]
    cases e.kind with
    | data =>
      refine ih hbase ?_
      rw [Contents.write, if_neg (by omega), hm]
    | last => exact hm
    | segment => exact ih (by omega) hm
    | linear => exact ih (by omega) hm
    | startSegment => exact ih hbase hm
    | startLinear => exact ih hbase hm

theorem slice_cons (c : Char) (cs : List Char) (start stop : Nat) :
    slice (c :: cs) (start + 1) (stop + 1) = slice cs start stop := rfl

def DigitsOnly (cs : List Char) : Prop := ∀ c ∈ cs, (hexValue? c).isSome = true

-- by going through the list: going through all characters never ends
instance (cs : List Char) : Decidable (DigitsOnly cs) := List.decidableBAll (fun c => (hexValue? c).isSome = true) cs

/-- a file whose records are made of digits only is made of entries, and the image is what they mean -/
theorem entries_of_read {lines : List (List Char)} {image : Sparse} (h : read lines = .ok image)
    (hdigits : ∀ line ∈ upToEnd lines, opensRecord line = true → DigitsOnly (body line).tail) :
    ∃ es, List.Forall₂ Entry.Written es ((upToEnd lines).filter opensRecord) ∧
      ∀ a, image.get? a = (meaning 0 (fun _ => none) es a).map (fun b => (b.toNat : Int)) := by
  obtain ⟨back, hback, hend⟩ := exists_back lines
  have hentries : ∀ line ∈ (upToEnd lines).filter opensRecord, ∃ e : Entry, e.Written line := by
    intro line hmem
    obtain ⟨hmem, hopens⟩ := List.mem_filter.1 hmem
    obtain ⟨r, length, sum, hknown, hfields⟩ := accepted_of_readFrom h hmem hopens
    obtain ⟨e, hwritten, -⟩ := written_of_fields hopens hfields hknown (hdigits line hmem hopens)
    exact ⟨e, hwritten⟩
  obtain ⟨es, hes, hlast⟩ := exists_entries hentries
  have hend' : back = [] ∨ ∃ e ∈ es, e.kind = .last := by
    refine hend.imp_right ?_
    rintro ⟨line, hmem, hcloses⟩
    exact hlast ⟨line, List.mem_filter.2 ⟨hmem, (Bool.and_eq_true_iff.1 hcloses).1⟩, hcloses⟩
  have hempty : Show #[] fun _ => none := fun a => Std.HashMap.getElem?_empty
  obtain ⟨image', himage, -, hmeaning⟩ := readFrom_of_written (s := {}) hes hend' hempty 1
  rw [← hback] at himage
  obtain rfl : image = image' := Except.ok.inj (h.symm.trans himage)
  exact ⟨es, hes, hmeaning⟩

/-- **What it takes to be accepted.** A file has been read. Every line that opens a record, up to the one that ends the
file, is a colon and two characters for each byte that its length asks for and for the five others; the sum of what
its fields are read as is a multiple of 256; and of the characters of the data, two stand for each byte and the others
are gaps. If nothing but digits comes after the colon, the line has an entry written on it and the record is that entry,
with as many bytes as it says. If that is so of all these lines, the image is what the entries mean, and it names no
address below zero. -/
theorem read_accepts {lines : List (List Char)} {image : Sparse} (h : read lines = .ok image) :
    (∀ line ∈ upToEnd lines, opensRecord line = true →
      ∃ (r : Record) (length : Nat) (sum : Int) (cs : List Char),
        body line = ':' :: cs ∧ Record.ofLine 0 (body line) = .ok r ∧ cs.length = 2 * (length + 5) ∧
        Integer.parse 16 (slice cs 0 2) = .ok (length : Int) ∧
        Integer.parse 16 (slice cs (cs.length - 2) cs.length) = .ok sum ∧
        (length + r.address / 256 + r.address % 256 + r.kind + total r.data + sum) % 256 = 0 ∧
        2 * r.data.length + r.digits.toList.countP isGap = 2 * length ∧
        (DigitsOnly cs → ∃ e : Entry, e.Written line ∧ r = e.record r.digits ∧ e.data.length = length)) ∧
    ((∀ line ∈ upToEnd lines, opensRecord line = true → DigitsOnly (body line).tail) →
      ∃ es, List.Forall₂ Entry.Written es ((upToEnd lines).filter opensRecord) ∧
        ∀ a, image.get? a = (meaning 0 (fun _ => none) es a).map (fun b => (b.toNat : Int)) ∧
          (image.get? a ≠ none → 0 ≤ a)) := by
  constructor
  · intro line hmem hopens
    obtain ⟨r, length, sum, hknown, hfields⟩ := accepted_of_readFrom h hmem hopens
    obtain ⟨cs, remark, hbody, -⟩ := exists_remark_of_opens hopens
    have hr : Record.ofLine 0 (body line) = .ok r := Record.ofLine_eq_ok.2 ⟨length, sum, hfields⟩
    obtain ⟨n, rfl, hline, hdigits⟩ := hfields.length_line
    have hcount : cs.length = 2 * (n + 5) := by
      rw [hbody, List.length_cons] at hline
      omega
    have hgaps := two_mul_length_bytes hfields.data_eq
    rw [String.length_toList, hdigits] at hgaps
    have hsum : (n + r.address / 256 + r.address % 256 + r.kind + total r.data + sum) % 256 = 0 := by
      have hchecksum := hfields.checksum_eq
      unfold checksum at hchecksum
      omega
    refine ⟨r, n, sum, cs, hbody, hr, hcount, ?_, ?_, hsum, hgaps, fun honly => ?_⟩
    · rw [← slice_cons ':', ← hbody]
      exact hfields.length_eq
    · have hlast := hfields.expected_eq
      rw [hbody, List.length_cons, show cs.length + 1 - 2 = cs.length - 2 + 1 by omega, slice_cons] at hlast
      exact hlast
    · have hes := written_of_fields hopens hfields hknown
      rw [hbody] at hes
      obtain ⟨e, hwritten, hrecord, hlength⟩ := hes honly
      exact ⟨e, hwritten, hrecord, (Int.ofNat.inj hlength).symm⟩
  · intro hdigits
    obtain ⟨es, hes, hmeaning⟩ := entries_of_read h hdigits
    refine ⟨es, hes, fun a => ⟨hmeaning a, fun hne => ?_⟩⟩
    by_contra hneg
    rw [hmeaning a, meaning_of_neg (le_refl 0) (not_le.1 hneg) rfl] at hne
    exact hne rfl

/-- a line that is no record, a record with a comment, the end, and a broken record after it -/
def remarkedLines : List (List Char) :=
  ["note".toList, " :0201000012F0FB ; first".toList, ":00000001FF".toList, ":broken".toList]

theorem remarked_accepted :
    read remarkedLines = .ok [(0x100, 0x12), (0x101, 0xF0)] ∧
      (∃ e : Entry, e.Written " :0201000012F0FB ; first".toList ∧ e.data.length = 2) ∧
      ∃ es, List.Forall₂ Entry.Written es ((upToEnd remarkedLines).filter opensRecord) := by
  have hread : read remarkedLines = .ok [(0x100, 0x12), (0x101, 0xF0)] := by cbv
  have hdigits : ∀ line ∈ upToEnd remarkedLines, opensRecord line = true → DigitsOnly (body line).tail := by decide
  obtain ⟨hlines, hfile⟩ := read_accepts hread
  obtain ⟨es, hes, -⟩ := hfile hdigits
  refine ⟨hread, ?_, es, hes⟩
  obtain ⟨r, length, sum, cs, hbody, -, hlength, -, -, -, -, hentry⟩ :=
    hlines " :0201000012F0FB ; first".toList (by decide) (by decide)
  have hrecord : body " :0201000012F0FB ; first".toList = ':' :: "0201000012F0FB".toList := by decide
  obtain ⟨-, rfl⟩ := List.cons.inj (hrecord.symm.trans hbody)
  obtain ⟨e, hwritten, -, hcount⟩ := hentry (by decide)
  have htwo : 14 = 2 * (length + 5) := hlength
  exact ⟨e, hwritten, by omega⟩

/-- **Not every line that is accepted has an entry written on it.** A record says that it has two bytes of data, and has
one and a gap; another puts its byte at an address below zero. -/
theorem lenient_records_accepted :
    (read [":02000000AB  53".toList] = .ok [(0, 0xAB)] ∧
      Integer.parse 16 (slice (body ":02000000AB  53".toList) 1 3) = .ok 2 ∧
      ¬ DigitsOnly (body ":02000000AB  53".toList).tail) ∧
    read [":01-00100AB56".toList] = .ok [(-1, 0xAB)] := by
  refine ⟨⟨?_, ?_, ?_⟩, ?_⟩
  · cbv
  · decide
  · decide
  · cbv

end IntelHex

end Chip8
