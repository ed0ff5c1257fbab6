set_option autoImplicit false

/-!
# Opcode tables of the Z80

Templates of the plain opcodes, the beginnings of the bit group behind `0xCB`, the instructions behind
`0xED` that no bit pattern covers, and the names of registers as opcodes number them.  `XXXXh` stands
for a word, low byte first, `XXh` for a byte, `+ddd` for a signed index displacement, and `rrrr` for a
signed distance.  The entries of the leading bytes `0xCB`, `0xDD`, `0xED` and `0xFD` are no instructions.
-/

namespace EightBit.Z80

/-- The templates of the plain opcodes. -/
def opcodes : List String :=
  [
    "NOP",           "LD BC,XXXXh", "LD (BC),A",     "INC BC",
    "INC B",         "DEC B",       "LD B,XXh",      "RLCA",
    "EX AF,AF'",     "ADD HL,BC",   "LD A,(BC)",     "DEC BC",
    "INC C",         "DEC C",       "LD C,XXh",      "RRCA",
    "DJNZ rrrr",     "LD DE,XXXXh", "LD (DE),A",     "INC DE",
    "INC D",         "DEC D",       "LD D,XXh",      "RLA",
    "JR rrrr",       "ADD HL,DE",   "LD A,(DE)",     "DEC DE",
    "INC E",         "DEC E",       "LD E,XXh",      "RRA",
    "JR NZ,rrrr",    "LD HL,XXXXh", "LD (XXXXh),HL", "INC HL",
    "INC H",         "DEC H",       "LD H,XXh",      "DAA",
    "JR Z,rrrr",     "ADD HL,HL",   "LD HL,(XXXXh)", "DEC HL",
    "INC L",         "DEC L",       "LD L,XXh",      "CPL",
    "JR NC,rrrr",    "LD SP,XXXXh", "LD (XXXXh),A",  "INC SP",
    "INC (HL)",      "DEC (HL)",    "LD (HL),XXh",   "SCF",
    "JR C,rrrr",     "ADD HL,SP",   "LD A,(XXXXh)",  "DEC SP",
    "INC A",         "DEC A",       "LD A,XXh",      "CCF",
    "LD B,B",        "LD B,C",      "LD B,D",        "LD B,E",
    "LD B,H",        "LD B,L",      "LD B,(HL)",     "LD B,A",
    "LD C,B",        "LD C,C",      "LD C,D",        "LD C,E",
    "LD C,H",        "LD C,L",      "LD C,(HL)",     "LD C,A",
    "LD D,B",        "LD D,C",      "LD D,D",        "LD D,E",
    "LD D,H",        "LD D,L",      "LD D,(HL)",     "LD D,A",
    "LD E,B",        "LD E,C",      "LD E,D",        "LD E,E",
    "LD E,H",        "LD E,L",      "LD E,(HL)",     "LD E,A",
    "LD H,B",        "LD H,C",      "LD H,D",        "LD H,E",
    "LD H,H",        "LD H,L",      "LD H,(HL)",     "LD H,A",
    "LD L,B",        "LD L,C",      "LD L,D",        "LD L,E",
    "LD L,H",        "LD L,L",      "LD L,(HL)",     "LD L,A",
    "LD (HL),B",     "LD (HL),C",   "LD (HL),D",     "LD (HL),E",
    "LD (HL),H",     "LD (HL),L",   "HALT",          "LD (HL),A",
    "LD A,B",        "LD A,C",      "LD A,D",        "LD A,E",
    "LD A,H",        "LD A,L",      "LD A,(HL)",     "LD A,A",
    "ADD B",         "ADD C",       "ADD D",         "ADD E",
    "ADD H",         "ADD L",       "ADD (HL)",      "ADD A",
    "ADC B",         "ADC C",       "ADC D",         "ADC E",
    "ADC H",         "ADC L",       "ADC (HL)",      "ADC A",
    "SUB B",         "SUB C",       "SUB D",         "SUB E",
    "SUB H",         "SUB L",       "SUB (HL)",      "SUB A",
    "SBC B",         "SBC C",       "SBC D",         "SBC E",
    "SBC H",         "SBC L",       "SBC (HL)",      "SBC A",
    "AND B",         "AND C",       "AND D",         "AND E",
    "AND H",         "AND L",       "AND (HL)",      "AND A",
    "XOR B",         "XOR C",       "XOR D",         "XOR E",
    "XOR H",         "XOR L",       "XOR (HL)",      "XOR A",
    "OR B",          "OR C",        "OR D",          "OR E",
    "OR H",          "OR L",        "OR (HL)",       "OR A",
    "CP B",          "CP C",        "CP D",          "CP E",
    "CP H",          "CP L",        "CP (HL)",       "CP A",
    "RET NZ",        "POP BC",      "JP NZ,XXXXh",   "JP XXXXh",
    "CALL NZ,XXXXh", "PUSH BC",     "ADD XXh",       "RST 00h",
    "RET Z",         "RET",         "JP Z,XXXXh",    "extCB",
    "CALL Z,XXXXh",  "CALL XXXXh",  "ADC XXh",       "RST 08h",
    "RET NC",        "POP DE",      "JP NC,XXXXh",   "OUT (XXh),A",
    "CALL NC,XXXXh", "PUSH DE",     "SUB XXh",       "RST 10h",
    "RET C",         "EXX",         "JP C,XXXXh",    "IN A,(XXh)",
    "CALL C,XXXXh",  "extDD",       "SBC XXh",       "RST 18h",
    "RET PO",        "POP HL",      "JP PO,XXXXh",   "EX (SP),HL",
    "CALL PO,XXXXh", "PUSH HL",     "AND XXh",       "RST 20h",
    "RET PE",        "JP (HL)",     "JP PE,XXXXh",   "EX DE,HL",
    "CALL PE,XXXXh", "extED",       "XOR XXh",       "RST 28h",
    "RET P",         "POP AF",      "JP P,XXXXh",    "DI",
    "CALL P,XXXXh",  "PUSH AF",     "OR XXh",        "RST 30h",
    "RET M",         "LD SP,HL",    "JP M,XXXXh",    "EI",
    "CALL M,XXXXh",  "extFD",       "CP XXh",        "RST 38h"
  ]

/-- The beginnings of the bit group, by the high five bits of the opcode. -/
def bitGroup : List String :=
  [
    "RLC ",   "RRC ",   "RL ",    "RR ",    "SLA ",   "SRA ",   "? ",     "SRL ",
    "BIT 0,", "BIT 1,", "BIT 2,", "BIT 3,", "BIT 4,", "BIT 5,", "BIT 6,", "BIT 7,",
    "RES 0,", "RES 1,", "RES 2,", "RES 3,", "RES 4,", "RES 5,", "RES 6,", "RES 7,",
    "SET 0,", "SET 1,", "SET 2,", "SET 3,", "SET 4,", "SET 5,", "SET 6,", "SET 7,"
  ]

/-- The byte registers, and the memory cell, by number. -/
def byteRegisters : List String :=
  ["B", "C", "D", "E", "H", "L", "(HL)", "A"]

/-- The registers of the input and output instructions, by number. -/
def transferRegisters : List String :=
  ["B", "C", "D", "E", "H", "L", "?", "A"]

/-- The word registers, by number. -/
def wordRegisters : List String :=
  ["BC", "DE", "HL", "SP"]

/-- The instructions behind `0xED` that no bit pattern covers. -/
def extendedOpcodes : List (Int × String) :=
  [
    (0x57, "LD A,I"), (0x5F, "LD A,R"), (0x47, "LD I,A"), (0x4F, "LD R,A"),
    (0xA0, "LDI"), (0xB0, "LDIR"), (0xA8, "LDD"), (0xB8, "LDDR"),
    (0xA1, "CPI"), (0xB1, "CPIR"), (0xA9, "CPD"), (0xB9, "CPDR"),
    (0x44, "NEG"), (0x46, "IM 0"), (0x56, "IM 1"), (0x5E, "IM 2"),
    (0x6F, "RLD"), (0x67, "RRD"), (0x4D, "RETI"), (0x45, "RETN"),
    (0xA2, "INI"), (0xB2, "INIR"), (0xAA, "IND"), (0xBA, "INDR"),
    (0xA3, "OUTI"), (0xB3, "OUTIR"), (0xAB, "OUTD"), (0xBB, "OTDR")
  ]

theorem length_opcodes : opcodes.length = 256 := by decide +kernel

end EightBit.Z80
