set_option autoImplicit false

/-!
# Opcode tables of the 6809

Mnemonics of the first page, of the long branches on the second page, and the names of registers as
operand bytes number them.  The opcodes `0x10` and `0x11` lead to the other pages and are no
instructions.
-/

namespace EightBit.Mc6809

/-- The mnemonics of the first page, by opcode. -/
def opcodes : List String :=
  [
    "NEG",   "?",     "?",    "COM",  "LSR",   "?",    "ROR",  "ASR",
    "ASL",   "ROL",   "DEC",  "?",    "INC",   "TST",  "JMP",  "CLR",
    "(pg2)", "(pg3)", "NOP",  "SYNC", "?",     "?",    "LBRA", "LBSR",
    "?",     "DAA",   "ORCC", "?",    "ANDCC", "SEX",  "EXG",  "TFR",
    "BRA",   "BRN",   "BHI",  "BLS",  "BCC",   "BCS",  "BNE",  "BEQ",
    "BVC",   "BVS",   "BPL",  "BMI",  "BGE",   "BLT",  "BGT",  "BLE",
    "LEAX",  "LEAY",  "LEAS", "LEAU", "PSHS",  "PULS", "PSHU", "PULU",
    "?",     "RTS",   "ABX",  "RTI",  "CWAI",  "MUL",  "?",    "SWI",
    "NEGA",  "?",     "?",    "COMA", "LSRA",  "?",    "RORA", "ASRA",
    "ASLA",  "ROLA",  "DECA", "?",    "INCA",  "TSTA", "?",    "CLRA",
    "NEGB",  "?",     "?",    "COMB", "LSRB",  "?",    "RORB", "ASRB",
    "ASLB",  "ROLB",  "DECB", "?",    "INCB",  "TSTB", "?",    "CLRB",
    "NEG",   "?",     "?",    "COM",  "LSR",   "?",    "ROR",  "ASR",
    "ASL",   "ROL",   "DEC",  "?",    "INC",   "TST",  "JMP",  "CLR",
    "NEG",   "?",     "?",    "COM",  "LSR",   "?",    "ROR",  "ASR",
    "ASL",   "ROL",   "DEC",  "?",    "INC",   "TST",  "JMP",  "CLR",
    "SUBA",  "CMPA",  "SBCA", "SUBD", "ANDA",  "BITA", "LDA",  "?",
    "EORA",  "ADCA",  "ORA",  "ADDA", "CMPX",  "BSR",  "LDX",  "?",
    "SUBA",  "CMPA",  "SBCA", "SUBD", "ANDA",  "BITA", "LDA",  "STA",
    "EORA",  "ADCA",  "ORA",  "ADDA", "CMPX",  "JSR",  "LDX",  "STX",
    "SUBA",  "CMPA",  "SBCA", "SUBD", "ANDA",  "BITA", "LDA",  "STA",
    "EORA",  "ADCA",  "ORA",  "ADDA", "CMPX",  "JSR",  "LDX",  "STX",
    "SUBA",  "CMPA",  "SBCA", "SUBD", "ANDA",  "BITA", "LDA",  "STA",
    "EORA",  "ADCA",  "ORA",  "ADDA", "CMPX",  "JSR",  "LDX",  "STX",
    "SUBB",  "CMPB",  "SBCB", "ADDD", "ANDB",  "BITB", "LDB",  "?",
    "EORB",  "ADCB",  "ORB",  "ADDB", "LDD",   "?",    "LDU",  "?",
    "SUBB",  "CMPB",  "SBCB", "ADDD", "ANDB",  "BITB", "LDB",  "STB",
    "EORB",  "ADCB",  "ORB",  "ADDB", "LDD",   "STD",  "LDU",  "STU",
    "SUBB",  "CMPB",  "SBCB", "ADDD", "ANDB",  "BITB", "LDB",  "STB",
    "EORB",  "ADCB",  "ORB",  "ADDB", "LDD",   "STD",  "LDU",  "STU",
    "SUBB",  "CMPB",  "SBCB", "ADDD", "ANDB",  "BITB", "LDB",  "STB",
    "EORB",  "ADCB",  "ORB",  "ADDB", "LDD",   "STD",  "LDU",  "STU"
  ]

/-- The mnemonics of the long branches `0x1020 .. 0x102F`, by their low digit. -/
def longBranches : List String :=
  [
    "?",    "LBRN", "LBHI", "LBLS", "LBCC", "LBCS", "LBNE", "LBEQ",
    "LBVC", "LBVS", "LBPL", "LBMI", "LBGE", "LBLT", "LBGT", "LBLE"
  ]

/-- The registers of exchange and transfer, by number. -/
def transferRegisters : List String :=
  [
    "D", "X", "Y",   "U",   "S", "PC", "?", "?",
    "A", "B", "CCR", "DPR", "?", "?",  "?", "?"
  ]

/-- The registers that an index postbyte selects. -/
def indexRegisters : List String :=
  ["X", "Y", "U", "S"]

theorem length_opcodes : opcodes.length = 256 := by decide +kernel

end EightBit.Mc6809
