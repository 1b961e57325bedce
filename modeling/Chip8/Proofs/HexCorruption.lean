/-
A damaged byte is always noticed. The bytes of a record are written as digit pairs, with one that says how many bytes of
data there are and one that makes the sum of all of them a multiple of 256. If one byte of a record that was right has
become another one, then either the data is no longer as long as it should be, or the sum is off; both are looked at
before anything is done about the record, so a byte that says its kind is no exception.

- `Sound.altered`: what goes wrong if one byte of a sound record is another one.
- `readFrom_append`: what becomes of a file after its first lines.
- `altered_byte_detected`: a file with one byte altered.
-/
import Chip8.Proofs.HexAcceptance

namespace Chip8.IntelHex

open Text Hex

/-! ## Records with one byte altered -/

/-- the bytes of a record of any kind, with the right length and the right checksum -/
def Sound (bytes : List UInt8) : Prop :=
  ∃ (count high low kind : UInt8) (data : List UInt8) (sum : UInt8),
    bytes = [count, high, low, kind] ++ data ++ [sum] ∧ count.toNat = data.length ∧ total bytes % 256 = 0

/-- blanks, or a comment -/
def IsTail (cs : List Char) : Prop := (∀ c ∈ cs, isBlank c = true) ∨ IsRemark cs

/-- a line with a sound record in digit pairs, and the same line with other digits for one of the bytes, which make it
another byte -/
inductive OneByteOff : List Char → List Char → Prop
  | intro {lead before old new after tail : List Char} {ahead behind : List UInt8} {a b : UInt8}
      (lead_blank : ∀ c ∈ lead, isBlank c = true) (before_spells : Spells (halves ahead) before)
      (old_spells : Spells (halves [a]) old) (new_spells : Spells (halves [b]) new)
      (after_spells : Spells (halves behind) after) (tail_off : IsTail tail) (sound : Sound (ahead ++ a :: behind))
      (other : a ≠ b) :
      OneByteOff (lead ++ ':' :: (before ++ old ++ after) ++ tail) (lead ++ ':' :: (before ++ new ++ after) ++ tail)

/-- a line among these is reached and ends the file -/
def TakesEnd (lines : List (List Char)) : Prop :=
  ∃ before line after image, lines = before ++ line :: after ∧ read before = .ok image ∧ closesFile line = true

/-! ## What is read from a line -/

theorem strip_lead {lead cs : List Char} (hlead : ∀ c ∈ lead, isBlank c = true) : strip (lead ++ cs) = strip cs := by
  unfold strip trim
  rw [List.dropWhile_append_of_pos hlead]

/-- a comment stays a comment when blanks are taken off the end -/
theorem strip_comment (cs space comment : List Char) (hspace : ∀ c ∈ space, isBlank c = true) :
    ∃ remark, strip (':' :: (cs ++ (space ++ ';' :: comment))) = ':' :: (cs ++ remark) ∧ IsRemark remark := by
  obtain ⟨kept, off, hkept, hsplit, hoff⟩ :=
    exists_space_of_strip (c := ':') (cs ++ (space ++ ';' :: comment)) (by decide)
  have hsplit : (cs ++ space ++ [';']) ++ comment = kept ++ off := by
    rw [← hsplit]
    simp
  -- the semicolon is no blank, so what has been taken off lies behind it
  obtain ⟨rest, hrest⟩ : ∃ rest, kept = (cs ++ space ++ [';']) ++ rest := by
    rcases List.append_eq_append_iff.1 hsplit with ⟨rest, hkept, -⟩ | ⟨rest, hkept, hrest⟩
    · exact ⟨rest, hkept⟩
    · rcases List.eq_nil_or_concat rest with rfl | ⟨rest, c, rfl⟩
      · exact ⟨[], by rw [List.append_nil, hkept, List.append_nil]⟩
      · rw [List.concat_eq_append, ← List.append_assoc] at hkept
        obtain ⟨-, hc⟩ := List.append_inj' hkept rfl
        have hblank := hoff c (by rw [hrest]; simp)
        rw [← List.singleton_inj.1 hc] at hblank
        exact absurd hblank (by decide)
  refine ⟨space ++ ';' :: rest, ?_, .inr ⟨space, rest, rfl, hspace⟩⟩
  rw [hkept, hrest]
  simp

/-- a colon and digits, with blanks around them and a comment or without: the line opens a record -/
theorem body_of_spells {lead digits tail : List Char} {ns : List Nat} (hlead : ∀ c ∈ lead, isBlank c = true)
    (hdigits : Spells ns digits) (htail : IsTail tail) :
    opensRecord (lead ++ ':' :: digits ++ tail) = true ∧ body (lead ++ ':' :: digits ++ tail) = ':' :: digits := by
  obtain ⟨remark, hstrip, hremark⟩ :
      ∃ remark, strip (lead ++ ':' :: digits ++ tail) = ':' :: (digits ++ remark) ∧ IsRemark remark := by
    rw [List.append_assoc, strip_lead hlead]
    have hblank : ∀ c ∈ ':' :: digits, isBlank c = false :=
      List.forall_mem_cons.2 ⟨by decide, hdigits.forall IsDigit.not_blank⟩
    rcases htail with htail | rfl | ⟨space, comment, rfl, hspace⟩
    · exact ⟨[], by rw [strip_append hblank htail, List.append_nil], .inl rfl⟩
    · exact ⟨[], by rw [strip_append hblank (List.forall_mem_nil _), List.append_nil], .inl rfl⟩
    · exact strip_comment digits space comment hspace
  refine ⟨?_, body_of_digits hstrip hdigits hremark⟩
  rw [opensRecord, hstrip]
  rfl

/-! ## What goes wrong -/

/-- with one byte altered, either the length is wrong, as the number of bytes is what it was, or the sum is -/
theorem Sound.altered {ahead behind : List UInt8} {a b : UInt8} (h : Sound (ahead ++ a :: behind)) (hab : a ≠ b) :
    ∃ (count high low kind : UInt8) (data : List UInt8) (sum : UInt8),
      ahead ++ b :: behind = [count, high, low, kind] ++ data ++ [sum] ∧
        (count.toNat ≠ data.length ∨ total (ahead ++ b :: behind) % 256 ≠ 0) := by
  obtain ⟨count, high, low, kind, data, sum, hbytes, hcount, htotal⟩ := h
  have hvalues : a.toNat ≠ b.toNat := fun heq => hab (UInt8.toNat_inj.1 heq)
  have hlength : (ahead ++ b :: behind).length = data.length + 5 := by
    calc (ahead ++ b :: behind).length = (ahead ++ a :: behind).length := by
          rw [List.length_append, List.length_append, List.length_cons, List.length_cons]
      _ = data.length + 5 := by rw [hbytes]; simp
  obtain ⟨count', high', low', kind', data', sum', hbytes', hdata⟩ := exists_layout hlength
  refine ⟨count', high', low', kind', data', sum', hbytes', ?_⟩
  cases ahead with
  | nil =>
    -- the length is the altered byte
    obtain ⟨rfl, -⟩ := List.cons.inj hbytes
    obtain ⟨rfl, -⟩ := List.cons.inj hbytes'
    left
    omega
  | cons first ahead =>
    have ha : a.toNat < 256 := a.toNat_lt
    have hb : b.toNat < 256 := b.toNat_lt
    have hsum (c : UInt8) : total (first :: ahead ++ c :: behind) = total (first :: ahead) + (c.toNat + total behind) :=
      total_append (first :: ahead) (c :: behind)
    rw [hsum] at htotal
    right
    rw [hsum]
    omega

/-- an altered line is refused, whatever the byte was that has been altered -/
theorem OneByteOff.refused {line altered : List Char} (h : OneByteOff line altered) :
    opensRecord altered = true ∧ ∀ number, Record.ofLine number (body altered) = .error (.lengthMismatch number) ∨
      ∃ computed expected, Record.ofLine number (body altered) = .error (.checksumMismatch number computed expected) := by
  obtain @⟨lead, before, old, new, after, tail, ahead, behind, a, b, hlead, hbefore, -, hnew, hafter, htail, hsound,
    hab⟩ := h
  have hdigits : Spells (halves (ahead ++ b :: behind)) (before ++ new ++ after) := by
    have hsplit : ahead ++ b :: behind = ahead ++ [b] ++ behind := by simp
    rw [hsplit, halves_append, halves_append]
    exact List.rel_append (List.rel_append hbefore hnew) hafter
  obtain ⟨hopens, hbody⟩ := body_of_spells hlead hdigits htail
  refine ⟨hopens, fun number => ?_⟩
  obtain ⟨count, high, low, kind, data, sum, hbytes, hwrong⟩ := hsound.altered hab
  rw [hbytes] at hdigits hwrong
  obtain ⟨digits, -, hline⟩ := Record.ofLine_of_spells hdigits number
  rw [hbody, hline]
  by_cases hcount : count.toNat = data.length
  · have hsum := hwrong.resolve_left (not_not.2 hcount)
    rw [Ne, ← checksum_eq_iff] at hsum
    exact .inr ⟨_, _, by rw [if_neg (not_not.2 hcount), if_pos hsum]⟩
  · exact .inl (if_pos hcount)

/-! ## What is read before it -/

/-- one line: it is refused, or it ends the file, or reading goes on after it -/
theorem readFrom_cons (line : List Char) (number : Nat) (s : Progress) :
    (∃ e, ∀ rest, readFrom number s (line :: rest) = .error e) ∨ closesFile line = true ∨
      ∃ t, ∀ rest, readFrom number s (line :: rest) = readFrom (number + 1) t rest := by
  cases hopens : opensRecord line with
  | false => exact .inr (.inr ⟨s, readFrom_other hopens number s⟩)
  | true =>
    have hhead : (strip line).head? = some ':' := of_decide_eq_true hopens
    cases hr : Record.ofLine number (body line) with
    | error e =>
      refine .inl ⟨e, fun rest => ?_⟩
      rw [readFrom, if_pos hhead, hr]
      rfl
    | ok r =>
      cases hnext : s.next number r with
      | error e =>
        refine .inl ⟨e, fun rest => ?_⟩
        rw [readFrom, if_pos hhead, hr]
        simp only [bind, Except.bind, hnext]
      | ok t =>
        cases t with
        | none =>
          have hlast := (Progress.known_of_next hnext).2.1 rfl
          rw [closesFile_of_accepted hopens hr]
          exact .inr (.inl (decide_eq_true hlast))
        | some t =>
          refine .inr (.inr ⟨t, fun rest => ?_⟩)
          rw [readFrom, if_pos hhead, hr]
          simp only [bind, Except.bind, hnext]

/-- some lines: one of them is refused, or one is reached that ends the file, or reading goes on after them -/
theorem readFrom_append (front : List (List Char)) (number : Nat) (s : Progress) :
    (∃ e, ∀ rest, readFrom number s (front ++ rest) = .error e) ∨
      (∃ before line after image, front = before ++ line :: after ∧ readFrom number s before = .ok image ∧
        closesFile line = true) ∨
      ∃ t, ∀ rest, readFrom number s (front ++ rest) = readFrom (number + front.length) t rest := by
  induction front generalizing number s with
  | nil => exact .inr (.inr ⟨s, fun _ => rfl⟩)
  | cons line front ih =>
    rcases readFrom_cons line number s with ⟨e, he⟩ | hcloses | ⟨t, ht⟩
    · exact .inl ⟨e, fun rest => he (front ++ rest)⟩
    · exact .inr (.inl ⟨[], line, front, s.image, rfl, rfl, hcloses⟩)
    · rcases ih (number + 1) t with ⟨e, he⟩ | ⟨before, last, after, image, rfl, hbefore, hlast⟩ | ⟨u, hu⟩
      · exact .inl ⟨e, fun rest => (ht (front ++ rest)).trans (he rest)⟩
      · exact .inr (.inl ⟨line :: before, last, after, image, rfl, (ht before).trans hbefore, hlast⟩)
      · refine .inr (.inr ⟨u, fun rest => ?_⟩)
        rw [List.cons_append, ht, hu, List.length_cons, Nat.add_assoc, Nat.add_comm 1]

/-- **A damaged byte is noticed.** One line of a file holds a record in digit pairs with the right length and the right
checksum, of any kind and with any amount of data, and no line before it is reached that ends the file. If one of its
bytes is written as another byte, whichever it is, the file is refused. If the lines before it are in order, what is
wrong is found on that very line, and it is the length or the checksum. -/
theorem altered_byte_detected {lines : List (List Char)} {k : Nat} {line altered : List Char}
    (hline : lines[k]? = some line) (hend : ¬ TakesEnd (lines.take k)) (haltered : OneByteOff line altered) :
    (∃ e, read (lines.set k altered) = .error e) ∧
      ∀ image, read (lines.take k) = .ok image →
        read (lines.set k altered) = .error (.lengthMismatch (k + 1)) ∨
          ∃ computed expected, read (lines.set k altered) = .error (.checksumMismatch (k + 1) computed expected) := by
  obtain ⟨hk, -⟩ := List.getElem?_eq_some_iff.1 hline
  have hset : lines.set k altered = lines.take k ++ altered :: lines.drop (k + 1) := by
    rw [List.set_eq_take_append_cons_drop, if_pos hk]
  have hcount : (lines.take k).length = k := List.length_take_of_le (le_of_lt hk)
  obtain ⟨hopens, hrefused⟩ := haltered.refused
  rw [hset]
  rcases readFrom_append (lines.take k) 1 {} with ⟨e, he⟩ | ⟨before, last, after, image, hsplit, hbefore, hlast⟩ | ⟨t, ht⟩
  · -- a line before it is refused already
    refine ⟨⟨e, he _⟩, fun image himage => ?_⟩
    have herror := he []
    rw [List.append_nil] at herror
    cases herror.symm.trans himage
  · exact absurd ⟨before, last, after, image, hsplit, hbefore, hlast⟩ hend
  · have hread : read (lines.take k ++ altered :: lines.drop (k + 1)) =
        readFrom (k + 1) t (altered :: lines.drop (k + 1)) := by
      rw [read, ht, hcount, Nat.add_comm]
    have hhead : (strip altered).head? = some ':' := of_decide_eq_true hopens
    rw [hread, readFrom, if_pos hhead]
    rcases hrefused (k + 1) with herror | ⟨computed, expected, herror⟩
    · rw [herror]
      exact ⟨⟨_, rfl⟩, fun _ _ => .inl rfl⟩
    · rw [herror]
      exact ⟨⟨_, rfl⟩, fun _ _ => .inr ⟨computed, expected, rfl⟩⟩

/-- the first data record of the sample, turned into a record that would end the file -/
theorem hidden_end_detected :
    OneByteOff "  :0201000012F0FB ; first".toList "  :0201000112F0FB ; first".toList ∧
      ∃ e, read (sampleLines.set 2 "  :0201000112F0FB ; first".toList) = .error e := by
  have hend : ¬ TakesEnd (sampleLines.take 2) := by
    have hopen : ∀ line ∈ sampleLines.take 2, closesFile line = false := by decide
    rintro ⟨before, line, after, image, hlines, -, hcloses⟩
    have hmem : line ∈ sampleLines.take 2 := by
      rw [hlines]
      exact List.mem_append_right before List.mem_cons_self
    exact absurd hcloses (ne_true_of_eq_false (hopen line hmem))
  have hsound : Sound ([0x02, 0x01, 0x00] ++ 0x00 :: [0x12, 0xF0, 0xFB]) :=
    ⟨0x02, 0x01, 0x00, 0x00, [0x12, 0xF0], 0xFB, rfl, rfl, by decide⟩
  have hblank : ∀ c ∈ "  ".toList, isBlank c = true := List.forall_mem_cons.2 ⟨rfl, List.forall_mem_singleton.2 rfl⟩
  have hremark : IsTail " ; first".toList := .inr (.inr ⟨[' '], " first".toList, rfl, List.forall_mem_singleton.2 rfl⟩)
  have haltered : OneByteOff "  :0201000012F0FB ; first".toList "  :0201000112F0FB ; first".toList :=
    @OneByteOff.intro "  ".toList "020100".toList "00".toList "01".toList "12F0FB".toList " ; first".toList
      [0x02, 0x01, 0x00] [0x12, 0xF0, 0xFB] 0x00 0x01 hblank (by decide) (by decide) (by decide) (by decide)
      hremark hsound (by decide)
  exact ⟨haltered, (altered_byte_detected rfl hend haltered).1⟩

end Chip8.IntelHex
