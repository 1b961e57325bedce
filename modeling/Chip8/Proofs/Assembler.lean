/-
Assembly text read back. `Instruction.ofAssembly?` reads the text of an instruction, and `Listing.assemble?` the text
column of a listing as the bytes it was made from. Both are for texts as they are written here: they read what a word
looks like, and refuse little.

A text is cut into words at its spaces; its commas say nothing. A mnemonic may stand for many instructions, but which one
it is shows in the looks of the operands (`Assembly.Operand`), as no two kinds of operand look alike.

- `Assembly.words_line`: the words of a text.
- `Instruction.ofAssembly?_assembly`: an instruction is read back from its text.
- `Listing.assemble?_ofBytes`: bytes are read back from the texts of their lines.
- `listing_assembles_back`: no text of a listing loses anything.
-/
import Chip8.Proofs.Decoding
import Chip8.Proofs.Disassembly

namespace Chip8

open Text

namespace Assembly

/-! ## Words -/

/-- the words of a text: what stands between its spaces, without the commas -/
def words (text : String) : List (List Char) := (text.toList.filter (· ≠ ',')).splitOn ' '

def line (mnemonic : String) : List String → String
  | [] => mnemonic
  | operands => mnemonic ++ " " ++ ", ".intercalate operands

/-- a text that is one word -/
def Plain (text : String) : Prop := ∀ c ∈ text.toList, c ≠ ' ' ∧ c ≠ ','

instance (text : String) : Decidable (Plain text) := List.decidableBAll _ text.toList

theorem Plain.append {s t : String} (hs : Plain s) (ht : Plain t) : Plain (s ++ t) := by
  intro c hc
  rw [String.toList_append, List.mem_append] at hc
  exact hc.elim (hs c) (ht c)

theorem Plain.filter {s : String} (hs : Plain s) : s.toList.filter (· ≠ ',') = s.toList :=
  List.filter_eq_self.2 fun c hc => decide_eq_true (hs c hc).2

theorem plain_upper {width n : Nat} (hwidth : 0 < width) (h : n < 16 ^ width) : Plain (Hex.upper width n) :=
  (Hex.spells_upper hwidth h).forall fun {_ _} hdigit =>
    hdigit.of_table (P := fun _ c => c ≠ ' ' ∧ c ≠ ',') (by decide)

theorem filter_intercalate {os : List String} (hos : ∀ s ∈ os, Plain s) :
    (", ".intercalate os).toList.filter (· ≠ ',') = [' '].intercalate (os.map String.toList) := by
  rw [String.toList_intercalate]
  induction os with
  | nil => rfl
  | cons s os ih =>
    have hs : Plain s := hos s List.mem_cons_self
    have hrest := ih fun t ht => hos t (List.mem_cons_of_mem s ht)
    cases os with
    | nil => simpa using hs.filter
    | cons t os =>
      have hcomma : ", ".toList.filter (· ≠ ',') = [' '] := by decide
      rw [List.map_cons, List.map_cons, List.intercalate_cons_cons, List.filter_append, List.filter_append, hs.filter,
        hcomma, ← List.map_cons, hrest, List.map_cons, List.intercalate_cons_cons]

theorem words_line {mnemonic : String} {os : List String} (hmnemonic : Plain mnemonic) (hos : ∀ s ∈ os, Plain s) :
    words (line mnemonic os) = mnemonic.toList :: os.map String.toList := by
  have hspaces : ∀ l ∈ mnemonic.toList :: os.map String.toList, ' ' ∉ l := by
    rintro l hl hspace
    rcases List.mem_cons.1 hl with rfl | hl
    · exact (hmnemonic ' ' hspace).1 rfl
    · obtain ⟨s, hs, rfl⟩ := List.mem_map.1 hl
      exact (hos s hs ' ' hspace).1 rfl
  have hsplit := List.splitOn_intercalate ' ' hspaces (List.cons_ne_nil _ _)
  unfold words
  rw [← hsplit]
  congr 1
  cases os with
  | nil => simpa [line] using hmnemonic.filter
  | cons s os =>
    have hspace : " ".toList.filter (· ≠ ',') = [' '] := by decide
    have hline : line mnemonic (s :: os) = mnemonic ++ " " ++ ", ".intercalate (s :: os) := rfl
    rw [hline, String.toList_append, String.toList_append, List.filter_append, List.filter_append, hmnemonic.filter,
      hspace, filter_intercalate hos, List.map_cons, List.intercalate_cons_cons]

/-! ## Operands -/

/-- the number below a bound that digits stand for -/
def numeral? (base bound : Nat) (digits : List Char) : Option (Fin bound) :=
  match Integer.parse base (.ofList digits) with
  | .ok n => if h : 0 ≤ n ∧ n < bound then some ⟨n.toNat, by omega⟩ else none
  | .error _ => none

theorem numeral?_upper {width bound : Nat} (hwidth : 0 < width) (hbound : bound ≤ 16 ^ width) (a : Fin bound) :
    numeral? 16 bound (Hex.upper width a.val).toList = some a := by
  have ha : (0 : Int) ≤ (a.val : Int) ∧ (a.val : Int) < bound := by omega
  unfold numeral?
  rw [String.ofList_toList, Hex.parse_upper hwidth (by omega)]
  simp only [dif_pos ha, Int.toNat_natCast]

theorem numeral?_byte (b : UInt8) : numeral? 16 256 (Hex.upper 2 b.toNat).toList = some b.toFin :=
  numeral?_upper (by decide) (by decide) b.toFin

/-- an operand, as far as it can be told by its looks -/
inductive Operand where
  | reg (x : Fin 16)
  | byte (b : UInt8)
  | addr (a : Fin 4096)
  /-- a word that means nothing -/
  | word (w : UInt16)
  /-- how many rows a sprite has -/
  | rows (n : Fin 16)
  | index
  /-- the memory that I points at -/
  | atIndex
  | delay
  | sound
  | key
  | glyph
  | decimal
  deriving DecidableEq, Repr

namespace Operand

def text : Operand → String
  | reg x => Instruction.regText x
  | byte b => Instruction.byteText b
  | addr a => Instruction.addrText a
  | word w => "$" ++ Hex.upper 4 w.toNat
  | rows n => "#" ++ toString n.val
  | index => "I"
  | atIndex => "[I]"
  | delay => "DT"
  | sound => "ST"
  | key => "K"
  | glyph => "F"
  | decimal => "B"

/-- the operand that has this text; a word is told from an address by having one digit more -/
def ofText? : List Char → Option Operand
  | ['I'] => some index
  | ['[', 'I', ']'] => some atIndex
  | ['D', 'T'] => some delay
  | ['S', 'T'] => some sound
  | ['K'] => some key
  | ['F'] => some glyph
  | ['B'] => some decimal
  | 'V' :: digits => (numeral? 16 16 digits).map reg
  | '#' :: '$' :: digits => (numeral? 16 256 digits).map fun b => byte (.ofFin b)
  | '#' :: digits => (numeral? 10 16 digits).map rows
  | '$' :: digits =>
    if digits.length = 4 then (numeral? 16 65536 digits).map fun w => word (.ofFin w)
    else (numeral? 16 4096 digits).map addr
  | _ => none

theorem plain_text (o : Operand) : Plain o.text := by
  cases o with
  | reg x => exact Plain.append (by decide) (plain_upper (by decide) x.isLt)
  | byte b => exact Plain.append (by decide) (plain_upper (by decide) b.toNat_lt)
  | addr a => exact Plain.append (by decide) (plain_upper (by decide) a.isLt)
  | word w => exact Plain.append (by decide) (plain_upper (by decide) w.toNat_lt)
  | rows n =>
    revert n
    decide
  | _ => decide

theorem ofText?_text (o : Operand) : ofText? o.text.toList = some o := by
  cases o with
  | reg x =>
    have hx : numeral? 16 16 (Hex.upper 1 x.val).toList = some x := numeral?_upper (by decide) (by decide) x
    simp [text, Instruction.regText, ofText?, hx]
  | byte b => simp [text, Instruction.byteText, ofText?, numeral?_byte]
  | addr a =>
    have ha : numeral? 16 4096 (Hex.upper 3 a.val).toList = some a := numeral?_upper (by decide) (by decide) a
    have hlength : (Hex.upper 3 a.val).toList.length = 3 := Hex.length_upper (by decide) a.isLt
    simp [text, Instruction.addrText, ofText?, ha, hlength]
  | word w =>
    have hw : numeral? 16 65536 (Hex.upper 4 w.toNat).toList = some w.toFin :=
      numeral?_upper (by decide) (by decide) w.toFin
    have hlength : (Hex.upper 4 w.toNat).toList.length = 4 := Hex.length_upper (by decide) w.toNat_lt
    simp [text, ofText?, hw, hlength]
  | rows n =>
    revert n
    decide +kernel
  | _ => decide

theorem mapM_ofText? (os : List Operand) : (os.map fun o => o.text.toList).mapM ofText? = some os := by
  induction os with
  | nil => rfl
  | cons o os ih => simp [ofText?_text, ih]

end Operand

end Assembly

open Assembly

/-! ## Instructions -/

namespace Instruction

/-- the register that the text of a jump with an offset names -/
def v0 : Fin 16 := (0 : BitVec 4).toFin

def parts : Instruction → List Operand
  | clear | ret => []
  | sys addr | jump addr | call addr => [.addr addr]
  | skipEq x byte | skipNe x byte | load x byte | add x byte | random x byte => [.reg x, .byte byte]
  | skipEqReg x y | skipNeReg x y | arith _ x y => [.reg x, .reg y]
  | loadIndex addr => [.index, .addr addr]
  | jumpOffset addr => [.reg v0, .addr addr]
  | draw x y n => [.reg x, .reg y, .rows n]
  | skipKey x | skipNoKey x => [.reg x]
  | readDelay x => [.reg x, .delay]
  | waitKey x => [.reg x, .key]
  | setDelay x => [.delay, .reg x]
  | setSound x => [.sound, .reg x]
  | addIndex x => [.index, .reg x]
  | glyph x => [.glyph, .reg x]
  | decimal x => [.decimal, .reg x]
  | store x => [.atIndex, .reg x]
  | restore x => [.reg x, .atIndex]
  | unknown word => [.word word]

def arithNamed? (mnemonic : String) : Option Arith :=
  [.copy, .or, .and, .xor, .add, .sub, .shr, .subn, .shl].find? fun op : Arith => op.mnemonic = mnemonic

def ofParts? (mnemonic : String) (operands : List Operand) : Option Instruction :=
  match mnemonic, operands with
  | "SYS", [.addr addr] => some (sys addr)
  | "CLS", [] => some clear
  | "RET", [] => some ret
  | "JP", [.addr addr] => some (jump addr)
  | "JP", [.reg ⟨0, _⟩, .addr addr] => some (jumpOffset addr)
  | "CALL", [.addr addr] => some (call addr)
  | "SE", [.reg x, .byte byte] => some (skipEq x byte)
  | "SE", [.reg x, .reg y] => some (skipEqReg x y)
  | "SNE", [.reg x, .byte byte] => some (skipNe x byte)
  | "SNE", [.reg x, .reg y] => some (skipNeReg x y)
  | "LD", [.reg x, .byte byte] => some (load x byte)
  | "LD", [.index, .addr addr] => some (loadIndex addr)
  | "LD", [.reg x, .delay] => some (readDelay x)
  | "LD", [.reg x, .key] => some (waitKey x)
  | "LD", [.delay, .reg x] => some (setDelay x)
  | "LD", [.sound, .reg x] => some (setSound x)
  | "LD", [.glyph, .reg x] => some (glyph x)
  | "LD", [.decimal, .reg x] => some (decimal x)
  | "LD", [.atIndex, .reg x] => some (store x)
  | "LD", [.reg x, .atIndex] => some (restore x)
  | "ADD", [.reg x, .byte byte] => some (add x byte)
  | "ADD", [.index, .reg x] => some (addIndex x)
  | "RND", [.reg x, .byte byte] => some (random x byte)
  | "DRW", [.reg x, .reg y, .rows n] => some (draw x y n)
  | "SKP", [.reg x] => some (skipKey x)
  | "SKNP", [.reg x] => some (skipNoKey x)
  | "UNKNOWN", [.word word] => some (unknown word)
  | mnemonic, [.reg x, .reg y] => (arithNamed? mnemonic).map fun op => arith op x y
  | _, _ => none

def ofAssembly? (text : String) : Option Instruction :=
  match words text with
  | mnemonic :: operands => do ofParts? (.ofList mnemonic) (← operands.mapM Operand.ofText?)
  | [] => none

theorem operands_eq_map (ins : Instruction) : ins.operands = ins.parts.map Operand.text := by
  cases ins with
  | jumpOffset addr =>
    have hv0 : Operand.text (.reg v0) = "V0" := by decide +kernel
    rw [parts, List.map_cons, hv0]
    rfl
  | _ => rfl

/-- mnemonic and operands belong to one instruction only -/
theorem ofParts?_parts (ins : Instruction) : ofParts? ins.mnemonic ins.parts = some ins := by
  cases ins with
  | arith op x y => cases op <;> rfl
  | _ => rfl

theorem plain_mnemonic (ins : Instruction) : Plain ins.mnemonic ∧ ins.mnemonic ≠ "DB" := by
  cases ins with
  | arith op x y => cases op <;> simp only [mnemonic, Arith.mnemonic] <;> decide
  | _ => simp only [mnemonic]; decide

theorem words_assembly (ins : Instruction) :
    words ins.assembly = ins.mnemonic.toList :: ins.parts.map fun o => o.text.toList := by
  have hline : ins.assembly = line ins.mnemonic ins.operands := by
    unfold assembly
    cases ins.operands <;> rfl
  have hplain : ∀ s ∈ ins.parts.map Operand.text, Plain s := by
    intro s hs
    obtain ⟨o, -, rfl⟩ := List.mem_map.1 hs
    exact o.plain_text
  rw [hline, ins.operands_eq_map, words_line ins.plain_mnemonic.1 hplain, List.map_map]
  rfl

/-- an instruction is read back from its text -/
theorem ofAssembly?_assembly (ins : Instruction) : ofAssembly? ins.assembly = some ins := by
  unfold ofAssembly?
  rw [ins.words_assembly]
  simp only [Operand.mapM_ofText?, String.ofList_toList]
  exact ins.ofParts?_parts

theorem assembly_injective : Function.Injective assembly := by
  intro ins other h
  have hread := congrArg ofAssembly? h
  rw [ofAssembly?_assembly, ofAssembly?_assembly] at hread
  exact Option.some.inj hread

end Instruction

/-! ## Listings -/

/-- the two bytes of a word, the high one first -/
def Word.bytes (w : UInt16) : List UInt8 := [UInt8.ofNat (w.toNat / 256), UInt8.ofNat (w.toNat % 256)]

theorem Word.bytes_ofBytes (high low : UInt8) : bytes (ofBytes high low) = [high, low] := by
  have hhigh := high.toNat_lt
  have hlow := low.toNat_lt
  have hword : high.toNat * 256 + low.toNat < 65536 := by omega
  have htoNat : (ofBytes high low).toNat = high.toNat * 256 + low.toNat := UInt16.toNat_ofNat_of_lt' hword
  have hdiv : (high.toNat * 256 + low.toNat) / 256 = high.toNat := by omega
  have hmod : (high.toNat * 256 + low.toNat) % 256 = low.toNat := by omega
  rw [bytes, htoNat, hdiv, hmod, UInt8.ofNat_toNat, UInt8.ofNat_toNat]

namespace Listing

/-- the bytes of the line that has this text -/
def bytes? (text : String) : Option (List UInt8) :=
  match words text with
  | [['D', 'B'], '$' :: digits] => (numeral? 16 256 digits).map fun b => [.ofFin b]
  | _ => (Instruction.ofAssembly? text).map fun ins => Word.bytes ins.encode

/-- the bytes of the lines that have these texts, one after the other -/
def assemble? : List String → Option (List UInt8)
  | [] => some []
  | text :: texts => do return (← bytes? text) ++ (← assemble? texts)

theorem bytes?_byteLine (address : Int) (b : UInt8) : bytes? (byteLine address b).text = some [b] := by
  have hline : (byteLine address b).text = line "DB" ["$" ++ Hex.upper 2 b.toNat] := by
    simp [byteLine, line, String.ext_iff]
  have hplain : ∀ s ∈ ["$" ++ Hex.upper 2 b.toNat], Plain s := by
    rintro s hs
    rw [List.mem_singleton.1 hs]
    exact Plain.append (by decide) (plain_upper (by decide) b.toNat_lt)
  unfold bytes?
  rw [hline, words_line (by decide) hplain]
  simp [numeral?_byte]

theorem bytes?_wordLine (address : Int) (high low : UInt8) :
    bytes? (wordLine address high low).text = some [high, low] := by
  unfold bytes?
  split
  · next digits hwords =>
    -- the text of an instruction does not look like data
    exfalso
    rw [wordLine, Instruction.words_assembly] at hwords
    have hmnemonic := (List.cons.inj hwords).1
    exact (Instruction.plain_mnemonic _).2 (String.toList_inj.1 hmnemonic)
  · rw [wordLine, Instruction.ofAssembly?_assembly, Option.map_some, Instruction.encode_decode, Word.bytes_ofBytes]

/-- bytes are read back from the texts of their lines -/
theorem assemble?_ofBytes (address : Int) (bs : List UInt8) :
    assemble? ((ofBytes address bs).map (·.text)) = some bs := by
  induction address, bs using ofBytes.induct with
  | case1 => rfl
  | case2 address b =>
    have hline := bytes?_byteLine address b
    simp only [byteLine] at hline
    simp [ofBytes, assemble?, hline]
  | case3 address high low rest ih =>
    have hline := bytes?_wordLine address high low
    simp only [wordLine] at hline
    simp [ofBytes, assemble?, hline, ih]

/-- an address of the range asked for that memory has -/
def Covers (m : Memory) (start length : Int) (a : Nat) : Prop := start ≤ a ∧ a < start + length ∧ a < m.size

instance (m : Memory) (start length : Int) (a : Nat) : Decidable (Covers m start length a) :=
  inferInstanceAs (Decidable (_ ∧ _))

theorem getElem?_covered {m : Memory} {start : Int} (length : Int) (hstart : 0 ≤ start) {a : Nat} (ha : start ≤ a) :
    (m.read start.toNat (min (start + length) m.size - start).toNat)[a - start.toNat]? =
      if Covers m start length a then some (m.byte a) else none := by
  rcases Int.le_total (min (start + length) m.size) start with hle | hle
  · have hoff : ¬Covers m start length a := by
      rintro ⟨-, hlength, hsize⟩
      omega
    rw [m.read_of_le hle, if_neg hoff]
    rfl
  · have hplace : start.toNat + (a - start.toNat) = a := by omega
    rw [Memory.getElem?_read (by omega), hplace]
    refine if_congr ?_ rfl rfl
    unfold Covers
    omega

end Listing

open Listing

/-- **Nothing is lost in the text.** The text of an instruction tells its word, that of a listing all its bytes, also
where the two memories differ in size, and the bytes can be had from the texts by reading them. -/
theorem listing_assembles_back :
    (∀ v w : UInt16, (Instruction.decode v).assembly = (Instruction.decode w).assembly → v = w) ∧
    (∀ (m m' : Memory) (start length : Int) (lines lines' : List Line), 0 ≤ start →
      ofMemory m start length = .ok lines → ofMemory m' start length = .ok lines' →
      lines.map (·.text) = lines'.map (·.text) →
      ∀ a, (Covers m start length a ↔ Covers m' start length a) ∧ (Covers m start length a → m.byte a = m'.byte a)) ∧
    ∀ (m : Memory) (start length : Int), 0 ≤ start →
      ∃ lines, ofMemory m start length = .ok lines ∧
        assemble? (lines.map (·.text)) = some (m.read start.toNat (min (start + length) m.size - start).toNat) := by
  refine ⟨?_, ?_, ?_⟩
  · intro v w h
    rw [← Instruction.encode_decode v, ← Instruction.encode_decode w, Instruction.assembly_injective h]
  · intro m m' start length lines lines' hstart hlines hlines' htexts a
    rw [ofMemory_eq hstart rfl, Except.ok.injEq] at hlines hlines'
    have hbytes := congrArg assemble? htexts
    rw [← hlines, ← hlines', assemble?_ofBytes, assemble?_ofBytes, Option.some.injEq] at hbytes
    by_cases ha : start ≤ a
    · have hplace := congrArg (·[a - start.toNat]?) hbytes
      simp only [getElem?_covered length hstart ha] at hplace
      split_ifs at hplace with h h'
      · exact ⟨iff_of_true h h', fun _ => Option.some.inj hplace⟩
      · exact ⟨iff_of_false h (by assumption), fun hcovers => absurd hcovers h⟩
    · exact ⟨iff_of_false (fun h => ha h.1) fun h => ha h.1, fun h => absurd h.1 ha⟩
  · intro m start length hstart
    exact ⟨_, ofMemory_eq hstart rfl, assemble?_ofBytes _ _⟩

/-- two memories of different size that show the same three bytes, the last of them alone -/
theorem sameText_assembles :
    ofMemory ⟨#[0x81, 0x24, 0xB3]⟩ 0 8 = .ok [wordLine 0 0x81 0x24, byteLine 2 0xB3] ∧
      ofMemory ⟨#[0x81, 0x24, 0xB3, 0x07]⟩ 0 3 = .ok [wordLine 0 0x81 0x24, byteLine 2 0xB3] ∧
      (wordLine 0 0x81 0x24).text = "ADD V1, V2" ∧ (byteLine 2 0xB3).text = "DB $B3" ∧
      assemble? ["ADD V1, V2", "DB $B3"] = some [0x81, 0x24, 0xB3] ∧
      (Covers ⟨#[0x81, 0x24, 0xB3]⟩ 0 3 2 ↔ Covers ⟨#[0x81, 0x24, 0xB3, 0x07]⟩ 0 3 2) := by
  have hword : (wordLine 0 0x81 0x24).text = "ADD V1, V2" := by decide +kernel
  have hbyte : (byteLine 2 0xB3).text = "DB $B3" := by decide +kernel
  have hsmall : ofMemory ⟨#[0x81, 0x24, 0xB3]⟩ 0 3 = .ok [wordLine 0 0x81 0x24, byteLine 2 0xB3] := by decide +kernel
  have hlarge : ofMemory ⟨#[0x81, 0x24, 0xB3, 0x07]⟩ 0 3 = .ok [wordLine 0 0x81 0x24, byteLine 2 0xB3] := by
    decide +kernel
  obtain ⟨lines, hlines, hback⟩ := listing_assembles_back.2.2 ⟨#[0x81, 0x24, 0xB3]⟩ 0 3 (by decide)
  rw [hsmall] at hlines
  obtain rfl := Except.ok.inj hlines
  have hcovers := (listing_assembles_back.2.1 _ _ 0 3 _ _ (by decide) hsmall hlarge rfl 2).1
  refine ⟨by decide +kernel, hlarge, hword, hbyte, ?_, hcovers⟩
  rw [List.map_cons, List.map_cons, List.map_nil, hword, hbyte] at hback
  exact hback

end Chip8
