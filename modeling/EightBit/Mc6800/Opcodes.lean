set_option autoImplicit false

/-!
# Opcode table of the 6800

Each opcode has a mnemonic; the operands follow from the addressing mode.  An opcode without an
instruction is `?`.
-/

namespace EightBit.Mc6800

/-- The mnemonics of the 6800, by opcode. -/
def opcodes : List String :=
  [
    "?",    "NOP",  "?",    "?",    "?",    "?",    "TAP",  "TPA",
    "INX",  "DEX",  "CLV",  "SEV",  "CLC",  "SEC",  "CLI",  "SEI",
    "SBA",  "CBA",  "?",    "?",    "?",    "?",    "TAB",  "TBA",
    "?",    "DAA",  "?",    "ABA",  "?",    "?",    "?",    "?",
    "BRA",  "?",    "BHI",  "BLS",  "BCC",  "BCS",  "BNE",  "BEQ",
    "BVC",  "BVS",  "BPL",  "BMI",  "BGE",  "BLT",  "BGT",  "BLE",
    "TSX",  "INS",  "PULA", "PULB", "DES",  "TXS",  "PSHA", "PSHB",
    "?",    "RTS",  "?",    "RTI",  "?",    "?",    "WAI",  "SWI",
    "NEGA", "?",    "?",    "COMA", "LSRA", "?",    "RORA", "ASRA",
    "ASLA", "ROLA", "DECA", "?",    "INCA", "TSTA", "?",    "CLRA",
    "NEGB", "?",    "?",    "COMB", "LSRB", "?",    "RORB", "ASRB",
    "ASLB", "ROLB", "DECB", "?",    "INCB", "TSTB", "?",    "CLRB",
    "NEG",  "?",    "?",    "COM",  "LSR",  "?",    "ROR",  "ASR",
    "ASL",  "ROL",  "DEC",  "?",    "INC",  "TST",  "JMP",  "CLR",
    "NEG",  "?",    "?",    "COM",  "LSR",  "?",    "ROR",  "ASR",
    "ASL",  "ROL",  "DEC",  "?",    "INC",  "TST",  "JMP",  "CLR",
    "SUBA", "CMPA", "SBCA", "?",    "ANDA", "BITA", "LDAA", "?",
    "EORA", "ADCA", "ORAA", "ADDA", "CPX",  "BSR",  "LDS",  "?",
    "SUBA", "CMPA", "SBCA", "?",    "ANDA", "BITA", "LDAA", "STAA",
    "EORA", "ADCA", "ORAA", "ADDA", "CPX",  "?",    "LDS",  "STS",
    "SUBA", "CMPA", "SBCA", "?",    "ANDA", "BITA", "LDAA", "STAA",
    "EORA", "ADCA", "ORAA", "ADDA", "CPX",  "JSR",  "LDS",  "STS",
    "SUBA", "CMPA", "SBCA", "?",    "ANDA", "BITA", "LDAA", "STAA",
    "EORA", "ADCA", "ORAA", "ADDA", "CPX",  "JSR",  "LDS",  "STS",
    "SUBB", "CMPB", "SBCB", "?",    "ANDB", "BITB", "LDAB", "?",
    "EORB", "ADCB", "ORAB", "ADDB", "?",    "?",    "LDX",  "?",
    "SUBB", "CMPB", "SBCB", "?",    "ANDB", "BITB", "LDAB", "STAB",
    "EORB", "ADCB", "ORAB", "ADDB", "?",    "?",    "LDX",  "STX",
    "SUBB", "CMPB", "SBCB", "?",    "ANDB", "BITB", "LDAB", "STAB",
    "EORB", "ADCB", "ORAB", "ADDB", "?",    "?",    "LDX",  "STX",
    "SUBB", "CMPB", "SBCB", "?",    "ANDB", "BITB", "LDAB", "STAB",
    "EORB", "ADCB", "ORAB", "ADDB", "?",    "?",    "LDX",  "STX"
  ]

theorem length_opcodes : opcodes.length = 256 := by decide +kernel

end EightBit.Mc6800
