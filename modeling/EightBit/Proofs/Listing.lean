import EightBit.Listing
import EightBit.Proofs.Feeding
set_option autoImplicit false

/-!
# Listings partition the image

A listing is produced by one decoder whose record goes from instruction to instruction.  `Lists` says
what the rows are without it: each instruction is what a new decoder makes of the bytes from its place
on, and the bytes that do not complete an instruction are data.  `listFrom_lists` shows that the loop
computes such rows, and everything else about listings is read off the relation.

The hexadecimal column of a row can be read back, so the bytes of an image are the ones written in the
columns of its listing.
-/

namespace EightBit

/-! ## Reading a hexadecimal column -/

/-- The value of a capital hexadecimal digit. -/
def hexValue? (digit : Char) : Option Nat :=
  "0123456789ABCDEF".toList.idxOf? digit

/-- The byte of two hexadecimal digits. -/
def hexByte? (high low : Char) : Option UInt8 :=
  match hexValue? high, hexValue? low with
  | some h, some l => some (UInt8.ofNat (0x10 * h + l))
  | _, _ => none

/-- The bytes of a column: pairs of hexadecimal digits with a blank between them. -/
def readHexColumn : List Char → Option (List UInt8)
  | [] => some []
  | [high, low] => (hexByte? high low).map fun byte => [byte]
  | high :: low :: ' ' :: rest =>
      match hexByte? high low, readHexColumn rest with
      | some byte, some bytes => some (byte :: bytes)
      | _, _ => none
  | _ => none

/-- The byte of a text of two hexadecimal digits. -/
def hexPair? : List Char → Option UInt8
  | [high, low] => hexByte? high low
  | _ => none

theorem hexPadded_byte (byte : UInt8) :
    ∃ high low, hexPadded 2 byte.toNat = [high, low] ∧ hexByte? high low = some byte := by
  have htable : ∀ n < 256, hexPair? (hexPadded 2 (n : Nat)) = some (UInt8.ofNat n) := by decide +kernel
  have hbyte := htable byte.toNat byte.toNat_lt
  rw [UInt8.ofNat_toNat] at hbyte
  unfold hexPair? at hbyte
  split at hbyte
  · rename_i high low heq
    exact ⟨high, low, heq, hbyte⟩
  · cases hbyte

/-- A column reads as the bytes it was written from. -/
theorem readHexColumn_hexColumn (bytes : List UInt8) : readHexColumn (hexColumn bytes) = some bytes := by
  induction bytes with
  | nil => rfl
  | cons byte rest ih =>
      obtain ⟨high, low, hdigits, hbyte⟩ := hexPadded_byte byte
      cases rest with
      | nil => simp [hexColumn, List.intercalate, hdigits, readHexColumn, hbyte]
      | cons second rest =>
          have hcolumn : hexColumn (byte :: second :: rest) =
              high :: low :: ' ' :: hexColumn (second :: rest) := by
            simp [hexColumn, List.intercalate, hdigits]
          rw [hcolumn, readHexColumn, hbyte, ih]

/-! ## The loop of a listing -/

/-- Bytes as the integers that an image is given by. -/
def imageOf (bytes : List UInt8) : List Int :=
  bytes.map fun byte => (byte.toNat : Int)

@[simp] theorem imageOf_cons (byte : UInt8) (bytes : List UInt8) :
    imageOf (byte :: bytes) = (byte.toNat : Int) :: imageOf bytes := rfl

theorem drop_imageOf (bytes : List UInt8) (n : Nat) : (imageOf bytes).drop n = imageOf (bytes.drop n) := by
  simp [imageOf]

theorem isByte_of_mem_imageOf {bytes : List UInt8} {value : Int} (h : value ∈ imageOf bytes) :
    IsByte value := by
  obtain ⟨byte, -, rfl⟩ := List.mem_map.mp h
  exact isByte_toNat byte

theorem map_ofInt_imageOf (bytes : List UInt8) : (imageOf bytes).map UInt8.ofInt = bytes := by
  rw [imageOf, List.map_map]
  exact (List.map_congr_left fun byte _ => ofInt_toNat byte).trans (List.map_id' bytes)

theorem inRange_wrap16 (address : Int) : InRange (wrap16 address) := by
  have h0 := wrap16_nonneg address
  have h1 := wrap16_lt address
  exact ⟨h0, by omega⟩

namespace InstructionSet

variable {μ : Type} {s : InstructionSet μ} {longest opening : Nat} {r : Record μ} {address : Int}
  {bytes : List UInt8} {k n : Nat}

/-- Bytes to be skipped are skipped all at once. -/
theorem listFrom_skip (s : InstructionSet μ) (r : Record μ) (skip : Nat) (address : Int)
    (image : List Int) :
    s.listFrom r skip address image = s.listFrom r 0 (address + skip) (image.drop skip) := by
  induction image generalizing skip address with
  | nil => simp [listFrom]
  | cons byte rest ih =>
      cases skip with
      | zero => simp
      | succ skip =>
          have haddress : address + 1 + (skip : Int) = address + ((skip + 1 : Nat) : Int) := by omega
          rw [listFrom, ih, haddress, List.drop_succ_cons]

/-- An instruction that is not in progress takes no bytes. -/
theorem nextAll_of_ne (s : InstructionSet μ) (hr : r.phase ≠ .fetching) (image : List Int) :
    s.nextAll r image = .ok r := by
  cases image with
  | nil => rfl
  | cons byte rest => rw [nextAll, if_neg hr]

theorem nextAll_append (s : InstructionSet μ) (r : Record μ) (image more : List Int) :
    s.nextAll r (image ++ more) = s.nextAll r image >>= fun q => s.nextAll q more := by
  induction image generalizing r with
  | nil => rfl
  | cons byte rest ih =>
      rw [List.cons_append, nextAll, nextAll]
      by_cases hphase : r.phase = .fetching
      · rw [if_pos hphase, if_pos hphase]
        cases (s.next r byte).result with
        | error e => rfl
        | ok taken => exact ih _
      · rw [if_neg hphase, if_neg hphase, ok_bind, s.nextAll_of_ne hphase]

/-- Decoding goes on with the bytes that follow, as far as the instruction takes them. -/
theorem decode_append (s : InstructionSet μ) (r : Record μ) (address : Int) {image : List Int}
    (h : image ≠ []) (more : List Int) :
    s.decode r address (image ++ more) = s.decode r address image >>= fun q => s.nextAll q more := by
  obtain ⟨byte, rest, rfl⟩ := List.exists_cons_of_ne_nil h
  rw [List.cons_append, decode, decode]
  cases (s.start r address byte).result with
  | error e => rfl
  | ok taken => exact s.nextAll_append _ rest more

namespace Lawful

/-- Decoding goes through the records that feeding goes through. -/
theorem decode_eq_nextAll (law : s.Lawful longest opening) (hr : r.phase ≠ .fetching)
    (haddress : InRange address) (hpos : 0 < k) (hk : k ≤ bytes.length)
    (hbelow : s.FetchingBelow r address bytes k) :
    s.decode r address (imageOf bytes) =
      s.nextAll (s.feed r address (bytes.take k)).record (imageOf (bytes.drop k)) := by
  induction k with
  | zero => omega
  | succ k ih =>
      have haccepted := law.feed_accepted hr haddress hpos hk hbelow
      rcases Nat.eq_zero_or_pos k with rfl | hpos'
      · obtain ⟨first, rest, rfl⟩ := List.exists_cons_of_ne_nil (List.ne_nil_of_length_pos hk)
        have hresult : (s.start r address (first.toNat : Int)).result = .ok true := haccepted.result_eq
        simp [decode, hresult, feed]
      · have hphase := hbelow k (Nat.lt_succ_self k) hpos'
        have hresult := haccepted.result_eq
        rw [feed_take_succ s r address hpos' hk] at hresult
        rw [ih hpos' (by omega) (hbelow.mono (Nat.le_succ k)), List.drop_eq_getElem_cons hk,
          feed_take_succ s r address hpos' hk]
        simp only [imageOf_cons, nextAll, if_pos hphase, hresult]

theorem decode_of_completes (law : s.Lawful longest opening) (hr : r.phase ≠ .fetching)
    (haddress : InRange address) (h : s.CompletesAfter r address bytes n) :
    s.decode r address (imageOf bytes) = .ok (s.feed r address (bytes.take n)).record := by
  rw [law.decode_eq_nextAll hr haddress h.pos h.le_length h.fetching]
  apply nextAll_of_ne
  rw [h.complete]
  decide

theorem decode_of_fetching (law : s.Lawful longest opening) (hr : r.phase ≠ .fetching)
    (haddress : InRange address) (hpos : 0 < bytes.length)
    (h : s.FetchingBelow r address bytes (bytes.length + 1)) :
    s.decode r address (imageOf bytes) = .ok (s.feed r address bytes).record := by
  rw [law.decode_eq_nextAll hr haddress hpos (Nat.le_refl _) (h.mono (Nat.le_succ _)), List.take_length,
    List.drop_length]
  rfl

end Lawful

/-! ## The rows of a listing -/

/-- The row of an instruction that begins at an address, as a new decoder makes it. -/
def freshRow (s : InstructionSet μ) (address : Int) (bytes : List UInt8) : ListingRow where
  address := wrap16 address
  bytes := bytes
  text := (s.feed {} (wrap16 address) bytes).record.completeText

/-- The rows of an image at an address. -/
inductive Lists (s : InstructionSet μ) : Int → List UInt8 → List ListingRow → Prop
  /-- Bytes that complete no instruction are data. -/
  | tail {address : Int} {bytes : List UInt8}
      (h : s.FetchingBelow {} (wrap16 address) bytes (bytes.length + 1)) :
      Lists s address bytes (dataRows address bytes)
  /-- Bytes that complete an instruction are its row, and the listing goes on behind them. -/
  | instruction {address : Int} {bytes : List UInt8} {n : Nat} {rows : List ListingRow}
      (h : s.CompletesAfter {} (wrap16 address) bytes n)
      (hrest : Lists s (address + n) (bytes.drop n) rows) :
      Lists s address bytes (s.freshRow address (bytes.take n) :: rows)

theorem phase_initial : ({} : Record μ).phase ≠ .fetching := by
  intro h
  cases h

namespace Lawful

/-! ## One round of the loop -/

/-- The row of an instruction does not show what the decoder did before. -/
theorem instructionRow_eq (law : s.Lawful longest opening) (hr : r.phase ≠ .fetching)
    (h : s.CompletesAfter {} (wrap16 address) bytes n) :
    instructionRow (s.feed r (wrap16 address) (bytes.take n)).record = s.freshRow address (bytes.take n) := by
  have haddress := inRange_wrap16 address
  have haccepted := law.feed_accepted phase_initial haddress h.pos h.le_length h.fetching
  have hagrees := (law.feed_agrees phase_initial hr haddress h.pos h.le_length h.fetching).record
  simp only [instructionRow, freshRow, Record.completeText, ← hagrees.phase_eq, ← hagrees.address_eq,
    ← hagrees.fetched_eq, ← hagrees.text_eq, haccepted.address_eq, haccepted.fetched_eq]

/-- A round that completes an instruction gives its row and goes on behind its bytes, whatever follows. -/
theorem listFrom_round (law : s.Lawful longest opening) (hr : r.phase ≠ .fetching)
    (h : s.CompletesAfter {} (wrap16 address) bytes n) (more : List Int) :
    s.listFrom r 0 address (imageOf bytes ++ more) =
      (s.listFrom (s.feed r (wrap16 address) (bytes.take n)).record 0 (address + n)
        (imageOf (bytes.drop n) ++ more)).map (s.freshRow address (bytes.take n) :: ·) := by
  have haddress := inRange_wrap16 address
  have h' := law.completesAfter_congr phase_initial hr haddress h rfl
  have haccepted := law.feed_accepted hr haddress h'.pos h'.le_length h'.fetching
  have hcount : (s.feed r (wrap16 address) (bytes.take n)).record.count = n := by
    rw [haccepted.count_eq, List.length_take_of_le h.le_length]
  have hdone : (s.feed r (wrap16 address) (bytes.take n)).record.phase ≠ .fetching := by
    rw [h'.complete]
    decide
  obtain ⟨first, rest, rfl⟩ := List.exists_cons_of_ne_nil
    (List.ne_nil_of_length_pos (Nat.lt_of_lt_of_le h.pos h.le_length))
  obtain ⟨m, rfl⟩ : ∃ m, n = m + 1 := ⟨n - 1, by have := h.pos; omega⟩
  have hdecode : s.decode r (wrap16 address) (imageOf (first :: rest) ++ more) =
      .ok (s.feed r (wrap16 address) ((first :: rest).take (m + 1))).record := by
    have hne : imageOf (first :: rest) ≠ [] := List.cons_ne_nil _ _
    rw [s.decode_append r _ hne, law.decode_of_completes hr haddress h', ok_bind,
      s.nextAll_of_ne hdone]
  have hplace : address + 1 + (m : Int) = address + ((m + 1 : Nat) : Int) := by omega
  have hdrop : (imageOf rest ++ more).drop m = imageOf (rest.drop m) ++ more := by
    have hm : m ≤ (imageOf rest).length := by
      have := h.le_length
      simpa [imageOf] using this
    rw [List.drop_append_of_le_length hm, drop_imageOf]
  rw [imageOf_cons, List.cons_append] at hdecode
  rw [imageOf_cons, List.cons_append, listFrom, hdecode]
  simp only [h'.complete, if_true, hcount, Nat.add_sub_cancel]
  rw [listFrom_skip, hplace, hdrop, law.instructionRow_eq hr h, List.drop_succ_cons]
  cases s.listFrom _ 0 _ (imageOf (rest.drop m) ++ more) <;> rfl

theorem listFrom_of_completes (law : s.Lawful longest opening) (hr : r.phase ≠ .fetching)
    (h : s.CompletesAfter {} (wrap16 address) bytes n) {rows : List ListingRow}
    (hrest : s.listFrom (s.feed r (wrap16 address) (bytes.take n)).record 0 (address + n)
      (imageOf (bytes.drop n)) = .ok rows) :
    s.listFrom r 0 address (imageOf bytes) = .ok (s.freshRow address (bytes.take n) :: rows) := by
  have hround := law.listFrom_round hr h []
  rw [List.append_nil, List.append_nil, hrest] at hround
  exact hround

/-- A round that completes no instruction gives the rows of data. -/
theorem listFrom_of_fetching (law : s.Lawful longest opening) (hr : r.phase ≠ .fetching)
    (h : s.FetchingBelow {} (wrap16 address) bytes (bytes.length + 1)) :
    s.listFrom r 0 address (imageOf bytes) = .ok (dataRows address bytes) := by
  cases bytes with
  | nil => rfl
  | cons first rest =>
      have haddress := inRange_wrap16 address
      have hpos : 0 < (first :: rest).length := Nat.succ_pos _
      have h' := law.fetchingBelow_congr phase_initial hr haddress h
      have haccepted := law.feed_accepted hr haddress hpos (Nat.le_refl _) (h'.mono (Nat.le_succ _))
      have hphase := h' _ (Nat.lt_succ_self _) hpos
      rw [List.take_length] at haccepted hphase
      have hdecode := law.decode_of_fetching hr haddress hpos h'
      rw [imageOf_cons] at hdecode
      rw [imageOf_cons, listFrom, hdecode]
      simp only [hphase, haccepted.fetched_eq]
      rfl

/-- The loop lists an image, whatever the record it begins with held before. -/
theorem listFrom_lists (law : s.Lawful longest opening) (bytes : List UInt8) (hr : r.phase ≠ .fetching) :
    ∃ rows, s.listFrom r 0 address (imageOf bytes) = .ok rows ∧ s.Lists address bytes rows := by
  -- The induction is on the length, since an instruction takes several bytes off the front.
  induction hlength : bytes.length using Nat.strongRecOn generalizing bytes r address with
  | _ length ih =>
      have haddress := inRange_wrap16 address
      have hcases : s.FetchingBelow {} (wrap16 address) bytes (bytes.length + 1) ∨
          ∃ n ≤ bytes.length, s.CompletesAfter {} (wrap16 address) bytes n :=
        law.fetching_or_completes phase_initial haddress (Nat.le_refl _)
      rcases hcases with hbelow | ⟨n, -, h⟩
      · exact ⟨_, law.listFrom_of_fetching hr hbelow, .tail hbelow⟩
      · have hpos := h.pos
        have hle := h.le_length
        have hshorter : (bytes.drop n).length < length := by
          rw [List.length_drop]
          omega
        have hcomplete := (law.completesAfter_congr phase_initial hr haddress h rfl).complete
        have hphase : (s.feed r (wrap16 address) (bytes.take n)).record.phase ≠ .fetching := by
          rw [hcomplete]
          decide
        have hrest : ∃ rows, s.listFrom (s.feed r (wrap16 address) (bytes.take n)).record 0 (address + n)
            (imageOf (bytes.drop n)) = .ok rows ∧ s.Lists (address + n) (bytes.drop n) rows :=
          ih _ hshorter _ hphase rfl
        obtain ⟨rows, hrows, hlists⟩ := hrest
        exact ⟨_, law.listFrom_of_completes hr h hrows, .instruction h hlists⟩

end Lawful

/-! ## The parts of a listing -/

/-- The bytes of rows, one row after the other. -/
def bytesOf (rows : List ListingRow) : List UInt8 :=
  rows.flatMap ListingRow.bytes

/-- The rows of instructions, followed by rows of data, partition an image that begins at `start`. -/
structure Partition (s : InstructionSet μ) (longest : Nat) (start : Int) (image : List UInt8)
    (instructions data : List ListingRow) : Prop where
  /-- The bytes of the rows are the image. -/
  bytes_eq : bytesOf (instructions ++ data) = image
  /-- The hexadecimal columns show the bytes of the rows. -/
  hex_eq : ∀ row ∈ instructions ++ data, readHexColumn row.hex.toList = some row.bytes
  /-- A row has the address of its first byte. -/
  address_eq : ∀ front row back, instructions ++ data = front ++ row :: back →
    row.address = (start + (bytesOf front).length) % 0x10000
  /-- A new decoder completes an instruction with the last of its bytes, and with the text of its row. -/
  instruction : ∀ row ∈ instructions,
    s.CompletesAfter {} row.address row.bytes row.bytes.length ∧
      row.text = (s.feed {} row.address row.bytes).record.completeText
  /-- A row of data is a byte and its value. -/
  data_byte : ∀ row ∈ data, ∃ byte : UInt8,
    row.bytes = [byte] ∧ row.text = .ofChars ("DB $".toList ++ hexPadded 2 byte.toNat)
  data_length : data.length < longest
  /-- The data are the beginning of an instruction. -/
  data_fetching : ∀ first rest, data = first :: rest →
    (s.feed {} first.address (bytesOf data)).record.phase = .fetching

theorem bytesOf_dataRows (address : Int) (bytes : List UInt8) : bytesOf (dataRows address bytes) = bytes := by
  induction bytes generalizing address with
  | nil => rfl
  | cons byte rest ih =>
      have hrest := ih (address + 1)
      unfold bytesOf at hrest ⊢
      simp [dataRows, hrest]

theorem length_dataRows (address : Int) (bytes : List UInt8) :
    (dataRows address bytes).length = bytes.length := by
  induction bytes generalizing address with
  | nil => rfl
  | cons byte rest ih => simp [dataRows, ih]

theorem dataRows_byte (address : Int) (bytes : List UInt8) : ∀ row ∈ dataRows address bytes,
    ∃ byte : UInt8, row.bytes = [byte] ∧ row.text = .ofChars ("DB $".toList ++ hexPadded 2 byte.toNat) := by
  induction bytes generalizing address with
  | nil => simp [dataRows]
  | cons byte rest ih =>
      intro row hmem
      rw [dataRows, List.mem_cons] at hmem
      rcases hmem with rfl | hmem
      · exact ⟨byte, rfl, rfl⟩
      · exact ih (address + 1) row hmem

theorem dataRows_address (address : Int) (bytes : List UInt8) (front back : List ListingRow)
    (row : ListingRow) (h : dataRows address bytes = front ++ row :: back) :
    row.address = wrap16 (address + (bytesOf front).length) := by
  induction bytes generalizing address front with
  | nil => simp [dataRows] at h
  | cons byte rest ih =>
      cases front with
      | nil =>
          simp only [dataRows, List.nil_append, List.cons.injEq] at h
          simp [← h.1, bytesOf]
      | cons head front =>
          simp only [dataRows, List.cons_append, List.cons.injEq] at h
          rw [ih (address + 1) front h.2]
          congr 1
          simp [← h.1, bytesOf]
          omega

theorem readHexColumn_hex (row : ListingRow) : readHexColumn row.hex.toList = some row.bytes := by
  rw [ListingRow.hex, String.toList_ofList, readHexColumn_hexColumn]

namespace Lawful

/-- Bytes that complete no instruction are partitioned into data. -/
theorem partition_dataRows (law : s.Lawful longest opening)
    (h : s.FetchingBelow {} (wrap16 address) bytes (bytes.length + 1)) :
    s.Partition longest address bytes [] (dataRows address bytes) where
  bytes_eq := bytesOf_dataRows address bytes
  hex_eq row _ := readHexColumn_hex row
  address_eq front row back heq := dataRows_address address bytes front back row heq
  instruction row hmem := by cases hmem
  data_byte := dataRows_byte address bytes
  data_length := by
    rw [length_dataRows]
    exact law.length_lt_of_fetching phase_initial (inRange_wrap16 address) (Nat.le_refl _) h
  data_fetching first rest heq := by
    have haddress : first.address = wrap16 (address + (bytesOf []).length) :=
      dataRows_address address bytes [] rest first heq
    have hpos : 0 < bytes.length := by
      rw [← length_dataRows address, heq]
      exact Nat.succ_pos _
    have hphase := h bytes.length (Nat.lt_succ_self _) hpos
    rw [List.take_length] at hphase
    rw [haddress, bytesOf_dataRows]
    simpa [bytesOf] using hphase

/-- An instruction in front of a partitioned image is partitioned with it. -/
theorem partition_cons (law : s.Lawful longest opening) {instructions data : List ListingRow}
    (h : s.CompletesAfter {} (wrap16 address) bytes n)
    (hrest : s.Partition longest (address + n) (bytes.drop n) instructions data) :
    s.Partition longest address bytes (s.freshRow address (bytes.take n) :: instructions) data where
  bytes_eq := by
    have hbytes := hrest.bytes_eq
    unfold bytesOf at hbytes ⊢
    rw [List.cons_append, List.flatMap_cons, hbytes]
    exact List.take_append_drop n bytes
  hex_eq row _ := readHexColumn_hex row
  address_eq front row back heq := by
    cases front with
    | nil =>
        simp only [List.cons_append, List.nil_append, List.cons.injEq] at heq
        rw [← heq.1]
        change wrap16 address = wrap16 (address + 0)
        rw [Int.add_zero]
    | cons head front =>
        simp only [List.cons_append, List.cons.injEq] at heq
        have hlength : (bytesOf (head :: front)).length = n + (bytesOf front).length := by
          have := h.le_length
          simp only [bytesOf, List.flatMap_cons, List.length_append, ← heq.1, freshRow, List.length_take]
          omega
        rw [hrest.address_eq front row back heq.2, hlength]
        congr 1
        omega
  instruction row hmem := by
    rcases List.mem_cons.mp hmem with rfl | hmem
    · refine ⟨?_, rfl⟩
      change s.CompletesAfter {} (wrap16 address) (bytes.take n) (bytes.take n).length
      rw [List.length_take_of_le h.le_length]
      refine law.completesAfter_congr phase_initial phase_initial (inRange_wrap16 address) h ?_
      rw [List.take_take, Nat.min_self]
    · exact hrest.instruction row hmem
  data_byte := hrest.data_byte
  data_length := hrest.data_length
  data_fetching := hrest.data_fetching

/-- Rows that list an image partition it. -/
theorem exists_partition (law : s.Lawful longest opening) {rows : List ListingRow}
    (h : s.Lists address bytes rows) :
    ∃ instructions data, rows = instructions ++ data ∧
      s.Partition longest address bytes instructions data := by
  induction h with
  | tail hbelow => exact ⟨[], _, rfl, law.partition_dataRows hbelow⟩
  | instruction hcompletes _ ih =>
      obtain ⟨instructions, data, rfl, hpartition⟩ := ih
      exact ⟨_, data, rfl, law.partition_cons hcompletes hpartition⟩

end Lawful

end InstructionSet

theorem exists_disassemble (a : Architecture) (start : Int) (image : List UInt8) :
    ∃ rows, disassemble a start (imageOf image) = .ok rows := by
  have hlists : ∃ rows, a.instructionSet.listFrom {} 0 start (imageOf image) = .ok rows ∧
      a.instructionSet.Lists start image rows :=
    a.lawful.listFrom_lists image InstructionSet.phase_initial
  obtain ⟨rows, hrows, -⟩ := hlists
  exact ⟨rows, hrows⟩

/-- The listing of an image partitions it into instructions and data. -/
theorem disassemble_partition (a : Architecture) (start : Int) (image : List UInt8) :
    ∃ instructions data, disassemble a start (imageOf image) = .ok (instructions ++ data) ∧
      a.instructionSet.Partition a.longest start image instructions data := by
  have hlists : ∃ rows, a.instructionSet.listFrom {} 0 start (imageOf image) = .ok rows ∧
      a.instructionSet.Lists start image rows :=
    a.lawful.listFrom_lists image InstructionSet.phase_initial
  obtain ⟨rows, hrows, hlists⟩ := hlists
  obtain ⟨instructions, data, rfl, hpartition⟩ := a.lawful.exists_partition hlists
  exact ⟨instructions, data, hrows, hpartition⟩

end EightBit
