/-
Assembly text. An instruction is written as its mnemonic and its operands; bytes carry `#$`, addresses and unknown
words `$`.
-/
import Chip8.Text.Hex
import Chip8.Instruction.Basic

namespace Chip8

def Arith.mnemonic : Arith → String
  | copy => "LD"
  | or => "OR"
  | and => "AND"
  | xor => "XOR"
  | add => "ADD"
  | sub => "SUB"
  | shr => "SHR"
  | subn => "SUBN"
  | shl => "SHL"

namespace Instruction

def regText (x : Fin 16) : String := "V" ++ Hex.upper 1 x.val

def byteText (b : UInt8) : String := "#$" ++ Hex.upper 2 b.toNat

def addrText (a : Fin 4096) : String := "$" ++ Hex.upper 3 a.val

def mnemonic : Instruction → String
  | sys _ => "SYS"
  | clear => "CLS"
  | ret => "RET"
  | jump _ | jumpOffset _ => "JP"
  | call _ => "CALL"
  | skipEq _ _ | skipEqReg _ _ => "SE"
  | skipNe _ _ | skipNeReg _ _ => "SNE"
  | load _ _ | loadIndex _ | readDelay _ | waitKey _ | setDelay _ | setSound _ | glyph _ | decimal _ => "LD"
  | store _ | restore _ => "LD"
  | add _ _ | addIndex _ => "ADD"
  | arith op _ _ => op.mnemonic
  | random _ _ => "RND"
  | draw _ _ _ => "DRW"
  | skipKey _ => "SKP"
  | skipNoKey _ => "SKNP"
  | unknown _ => "UNKNOWN"

def operands : Instruction → List String
  | clear | ret => []
  | sys addr | jump addr | call addr => [addrText addr]
  | skipEq x byte | skipNe x byte | load x byte | add x byte | random x byte => [regText x, byteText byte]
  | skipEqReg x y | skipNeReg x y | arith _ x y => [regText x, regText y]
  | loadIndex addr => ["I", addrText addr]
  | jumpOffset addr => ["V0", addrText addr]
  | draw x y n => [regText x, regText y, "#" ++ toString n.val]
  | skipKey x | skipNoKey x => [regText x]
  | readDelay x => [regText x, "DT"]
  | waitKey x => [regText x, "K"]
  | setDelay x => ["DT", regText x]
  | setSound x => ["ST", regText x]
  | addIndex x => ["I", regText x]
  | glyph x => ["F", regText x]
  | decimal x => ["B", regText x]
  | store x => ["[I]", regText x]
  | restore x => [regText x, "[I]"]
  | unknown word => ["$" ++ Hex.upper 4 word.toNat]

def assembly (ins : Instruction) : String :=
  match ins.operands with
  | [] => ins.mnemonic
  | os => ins.mnemonic ++ " " ++ ", ".intercalate os

end Instruction

end Chip8
