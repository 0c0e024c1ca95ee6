import LoneNvme.Lib.Hex

/-!
# Hex dumps

`hexdump` makes one line for each `num_chunks` bytes: the address, the bytes in
hexadecimal, padded to one width, and the same bytes as characters. `max_bytes` limits how
many lines there are. Read back from the columns, the lines are a prefix of the data; how
long a prefix, is the question the limit answers.

`decode` reads the columns of a line back, without knowing how it was made. Two prefixes of
the data are equal if they are equally long, so what is shown is decided by the number of lines
alone: the proof finds that number in closed form and compares.
-/

namespace LoneNvme

open Lib

namespace Hexdump

/--
`hexlify_with_string`. `sep` says whether `binascii.hexlify` takes a separator; where it
does not, it raises `TypeError` and is called without one.
-/
def hexlifyWithString (sep : Bool) (chunk : List (BitVec 8)) : List Char × List Char :=
  let h := Hex.separated (if sep then [' '] else []) chunk
  let s := chunk.map fun i => if 31 < i.toNat ∧ i.toNat < 128 then Char.ofNat i.toNat else '.'
  (h, s)

/-- `str.ljust`. -/
def ljust (h : List Char) (length : Nat) : List Char := h ++ List.replicate (length - h.length) ' '

/-- The width that the hexadecimal column is padded to. -/
def length (numChunks : Nat) : Nat := numChunks * 2 + (numChunks - 1)

/-- One line: `'0x{:04x} {}   {}'.format(address, h, s)`. -/
def line (sep : Bool) (numChunks address : Nat) (chunk : List (BitVec 8)) : String :=
  let (h, s) := hexlifyWithString sep chunk
  String.ofList (['0', 'x'] ++ (Hex.padded 4 address ++ ' ' ::
    (ljust h (length numChunks) ++ ([' ', ' ', ' '] ++ s))))

/-- The test that ends the loop early. A limit of zero lines is none, as `None` is. -/
def stops (maxLines : Option Nat) (ret : List String) : Bool :=
  match maxLines with
  | none => false
  | some maxLines => maxLines ≠ 0 ∧ ret.length ≥ maxLines

/-- The loop over the chunks; `bio` is what is left to read. -/
def hexdumpLoop (sep : Bool) (numChunks : Nat) (maxLines : Option Nat) (address : Nat)
    (ret : List String) (bio : List (BitVec 8)) : List String :=
  if bio.take numChunks = [] then ret
  else
    let ret := ret ++ [line sep numChunks address (bio.take numChunks)]
    if stops maxLines ret then ret
    else hexdumpLoop sep numChunks maxLines (address + numChunks) ret (bio.drop numChunks)
termination_by bio.length
decreasing_by
  rename_i hchunk _
  rw [List.take_eq_nil_iff, not_or] at hchunk
  have hpos := List.length_pos_of_ne_nil hchunk.2
  rw [List.length_drop]
  omega

/-- `hexdump`. -/
def hexdump (sep : Bool) (data : List (BitVec 8)) (numChunks : Nat := 16)
    (maxBytes : Option Nat := none) : List String :=
  let maxLines := match maxBytes with
    | none => none
    | some maxBytes => if maxBytes ≠ 0 then some (maxBytes / numChunks) else none
  hexdumpLoop sep numChunks maxLines 0 [] data

/-! ## What a reader sees -/

/-- The address of a line. -/
def lineAddress (line : String) : Option Nat :=
  Hex.number ((line.toList.drop 2).takeWhile fun c => c ≠ ' ')

/-- The bytes in the hexadecimal column of a line. -/
def lineBytes (numChunks : Nat) (line : String) : Option (List (BitVec 8)) :=
  let columns := (((line.toList.drop 2).dropWhile fun c => c ≠ ' ').drop 1).take (length numChunks)
  Hex.unhexlify (columns.filter fun c => c ≠ ' ')

/-- The bytes of all lines, in order. -/
def decode (numChunks : Nat) (lines : List String) : Option (List (BitVec 8)) :=
  (lines.mapM (lineBytes numChunks)).map List.flatten

/-- **What a dump should be.** -/
structure ShowsData (numChunks : Nat) (maxBytes : Option Nat) (data : List (BitVec 8))
    (lines : List String) : Prop where
  address : ∀ k line, lines[k]? = some line → lineAddress line = some (k * numChunks)
  bytes : ∀ k line, lines[k]? = some line →
    lineBytes numChunks line = some ((data.drop (k * numChunks)).take numChunks)
  pref : ∃ shown, decode numChunks lines = some shown ∧ shown <+: data
    ∧ (maxBytes = none → shown = data) ∧ ∀ m, maxBytes = some m → shown.length ≤ m

/-! ## One line -/

section

variable (sep : Bool) (numChunks address : Nat) (chunk : List (BitVec 8))

/-- The hexadecimal text of a chunk, with or without separators. -/
def hexText : List Char := (hexlifyWithString sep chunk).1

/-- A line behind its `0x`. -/
theorem drop_line : ∃ rest, (line sep numChunks address chunk).toList.drop 2
    = Hex.padded 4 address ++ ' ' :: (ljust (hexText sep chunk) (length numChunks) ++ rest) :=
  ⟨_, congrArg (List.drop 2) String.toList_ofList⟩

theorem digits_padded : ∀ c ∈ Hex.padded 4 address, decide (c ≠ ' ') = true := fun _ hc =>
  decide_eq_true fun he => Hex.space_notMem_padded 4 address (he ▸ hc)

theorem lineAddress_line : lineAddress (line sep numChunks address chunk) = some address := by
  obtain ⟨rest, hline⟩ := drop_line sep numChunks address chunk
  unfold lineAddress
  rw [hline, List.takeWhile_append_of_pos (digits_padded address),
    List.takeWhile_cons_of_neg (by simp), List.append_nil, Hex.number_padded]

variable {numChunks chunk}

theorem length_hexText_le (h : chunk.length ≤ numChunks) :
    (hexText sep chunk).length ≤ length numChunks := by
  show (Hex.separated _ chunk).length ≤ _
  rw [Hex.length_separated]
  unfold length
  cases sep with
  | true =>
      show 2 * chunk.length + (chunk.length - 1) * 1 ≤ _
      omega
  | false =>
      show 2 * chunk.length + (chunk.length - 1) * 0 ≤ _
      omega

theorem filter_hexText : ((hexText sep chunk).filter fun c => c ≠ ' ') = chunk.flatMap Hex.ofByte := by
  refine Hex.filter_separated (fun c hc => ?_) chunk
  cases sep with
  | true => exact List.mem_singleton.mp hc
  | false => exact absurd hc (by simp)

theorem lineBytes_line (h : chunk.length ≤ numChunks) :
    lineBytes numChunks (line sep numChunks address chunk) = some chunk := by
  obtain ⟨rest, hline⟩ := drop_line sep numChunks address chunk
  have hwidth : (ljust (hexText sep chunk) (length numChunks)).length = length numChunks := by
    rw [ljust, List.length_append, List.length_replicate]
    have hle := length_hexText_le sep h
    omega
  have hpad : ∀ k, ((List.replicate k ' ').filter fun c => c ≠ ' ') = [] := fun k =>
    List.filter_eq_nil_iff.mpr fun _ hc => by simp [List.eq_of_mem_replicate hc]
  unfold lineBytes
  dsimp only
  rw [hline, List.dropWhile_append_of_pos (digits_padded address),
    List.dropWhile_cons_of_neg (by simp), List.drop_one, List.tail_cons, List.take_left' hwidth,
    ljust, List.filter_append, hpad, List.append_nil, filter_hexText, Hex.unhexlify_flatMap]

end

/-! ## All lines -/

section

variable (sep : Bool) (numChunks : Nat) (data : List (BitVec 8))

/-- The first lines of an unlimited dump. -/
def firstLines (k : Nat) : List String := (List.range k).map fun i =>
  line sep numChunks (i * numChunks) ((data.drop (i * numChunks)).take numChunks)

theorem firstLines_succ (k : Nat) : firstLines sep numChunks data (k + 1)
    = firstLines sep numChunks data k ++
      [line sep numChunks (k * numChunks) ((data.drop (k * numChunks)).take numChunks)] := by
  rw [firstLines, List.range_succ, List.map_append]
  rfl

@[simp] theorem length_firstLines (k : Nat) : (firstLines sep numChunks data k).length = k := by
  rw [firstLines, List.length_map, List.length_range]

theorem getElem?_firstLines {k i : Nat} {l : String}
    (h : (firstLines sep numChunks data k)[i]? = some l) :
    l = line sep numChunks (i * numChunks) ((data.drop (i * numChunks)).take numChunks) := by
  have hi : i < k := by
    have hlt := (List.getElem?_eq_some_iff.mp h).1
    rwa [length_firstLines] at hlt
  rw [firstLines, List.getElem?_map, List.getElem?_range hi] at h
  exact (Option.some.inj h).symm

theorem decode_snoc {lines : List String} {l : String} {shown bs : List (BitVec 8)}
    (h : decode numChunks lines = some shown) (hl : lineBytes numChunks l = some bs) :
    decode numChunks (lines ++ [l]) = some (shown ++ bs) := by
  obtain ⟨chunks, hchunks, rfl⟩ := Option.map_eq_some_iff.mp h
  unfold decode
  rw [List.mapM_append, hchunks]
  simp [hl]

/-- Read back, the first `k` lines are the first `k * num_chunks` bytes. -/
theorem decode_firstLines (k : Nat) : decode numChunks (firstLines sep numChunks data k)
    = some (data.take (k * numChunks)) := by
  induction k with
  | zero => rw [Nat.zero_mul]; rfl
  | succ k ih =>
      have hle : ((data.drop (k * numChunks)).take numChunks).length ≤ numChunks :=
        List.length_take_le _ _
      rw [firstLines_succ, decode_snoc numChunks ih (lineBytes_line sep _ hle), ← List.take_add,
        Nat.succ_mul]

/-- How many lines all of the data takes. -/
def allLines (size numChunks : Nat) : Nat := (size + numChunks - 1) / numChunks

/-- How many lines there are under a limit. -/
def numLines (size numChunks : Nat) : Option Nat → Nat
  | none => allLines size numChunks
  | some maxLines =>
      if maxLines ≠ 0 then min (allLines size numChunks) maxLines else allLines size numChunks

theorem numLines_le (size numChunks : Nat) (maxLines : Option Nat) :
    numLines size numChunks maxLines ≤ allLines size numChunks := by
  unfold numLines
  split
  · exact Nat.le_refl _
  · split
    · exact Nat.min_le_left _ _
    · exact Nat.le_refl _

/-- The loop stops early where the limit is, -/
theorem numLines_of_stops {maxLines : Option Nat} {k : Nat} {size : Nat}
    (hk : k < numLines size numChunks maxLines)
    (h : stops maxLines (firstLines sep numChunks data (k + 1)) = true) :
    numLines size numChunks maxLines = k + 1 := by
  cases maxLines with
  | none => exact absurd h (by simp [stops])
  | some m =>
      obtain ⟨hm, hge⟩ : m ≠ 0 ∧ m ≤ k + 1 := by simpa [stops] using h
      rw [numLines, if_pos hm] at hk ⊢
      omega

/-- and nowhere else. -/
theorem lt_numLines_of_not_stops {maxLines : Option Nat} {k : Nat} {size : Nat}
    (hk : k < numLines size numChunks maxLines)
    (h : ¬ stops maxLines (firstLines sep numChunks data (k + 1)) = true)
    (hall : k + 1 < allLines size numChunks) : k + 1 < numLines size numChunks maxLines := by
  cases maxLines with
  | none => exact hall
  | some m =>
      have hno : ¬ (m ≠ 0 ∧ m ≤ k + 1) := by simpa [stops] using h
      rw [numLines] at hk ⊢
      split
      · rename_i hm
        rw [if_pos hm] at hk
        omega
      · exact hall

variable {numChunks}

theorem lt_allLines_iff (hn : 0 < numChunks) (size k : Nat) :
    k < allLines size numChunks ↔ k * numChunks < size := by
  unfold allLines
  rw [← Nat.succ_le_iff, Nat.le_div_iff_mul_le hn, Nat.succ_mul]
  omega

theorem length_le_allLines (hn : 0 < numChunks) (size : Nat) :
    size ≤ allLines size numChunks * numChunks :=
  Nat.le_of_not_lt fun h => Nat.lt_irrefl _ ((lt_allLines_iff hn size _).mpr h)

theorem numLines_pos {size : Nat} (h : 0 < allLines size numChunks) (maxLines : Option Nat) :
    0 < numLines size numChunks maxLines := by
  unfold numLines
  split
  · exact h
  · split
    · omega
    · exact h

variable {data}

/-- **The loop**, from the line that comes next on. -/
theorem hexdumpLoop_eq (hn : 0 < numChunks) {maxLines : Option Nat} {k : Nat}
    (hk : k < numLines data.length numChunks maxLines) :
    hexdumpLoop sep numChunks maxLines (k * numChunks) (firstLines sep numChunks data k)
        (data.drop (k * numChunks))
      = firstLines sep numChunks data (numLines data.length numChunks maxLines) := by
  have hle := numLines_le data.length numChunks maxLines
  generalize hleft : allLines data.length numChunks - k = left
  induction left generalizing k with
  | zero => omega
  | succ left ih =>
      have hmore : k * numChunks < data.length :=
        (lt_allLines_iff hn _ _).mp (Nat.lt_of_lt_of_le hk hle)
      have hchunk : ¬ (data.drop (k * numChunks)).take numChunks = [] := by
        rw [List.take_eq_nil_iff, not_or, List.drop_eq_nil_iff]
        omega
      rw [hexdumpLoop, if_neg hchunk]
      dsimp only
      rw [← firstLines_succ]
      -- the limit on the lines, or the end of the data
      by_cases hstops : stops maxLines (firstLines sep numChunks data (k + 1)) = true
      · rw [if_pos hstops, numLines_of_stops sep numChunks data hk hstops]
      · rw [if_neg hstops, List.drop_drop, ← Nat.succ_mul]
        by_cases hall : k + 1 < allLines data.length numChunks
        · exact ih (lt_numLines_of_not_stops sep numChunks data hk hstops hall) (by omega)
        · -- the data has run out
          have hend : data.drop ((k + 1) * numChunks) = [] := by
            rw [lt_allLines_iff hn, Nat.not_lt] at hall
            exact List.drop_eq_nil_iff.mpr hall
          have hlast : numLines data.length numChunks maxLines = k + 1 := by omega
          rw [hexdumpLoop, hend, if_pos List.take_nil, hlast]

/-- The limit on the lines that `hexdump` derives from the limit on the bytes. -/
def maxLines (numChunks : Nat) : Option Nat → Option Nat
  | none => none
  | some maxBytes => if maxBytes ≠ 0 then some (maxBytes / numChunks) else none

theorem maxLines_of_lt {m : Nat} (h : m < numChunks) (size : Nat) :
    numLines size numChunks (maxLines numChunks (some m)) = allLines size numChunks := by
  rw [maxLines]
  split
  · rw [Nat.div_eq_of_lt h]
    rfl
  · rfl

theorem numLines_maxLines_le {m : Nat} (hn : 0 < numChunks) (h : numChunks ≤ m) (size : Nat) :
    numLines size numChunks (maxLines numChunks (some m)) ≤ m / numChunks := by
  have hpos : m / numChunks ≠ 0 := Nat.ne_of_gt (Nat.div_pos h hn)
  rw [maxLines, if_pos (by omega), numLines, if_pos hpos]
  exact Nat.min_le_right _ _

/-- **A dump is the lines of the data up to the limit.** -/
theorem hexdump_eq (hn : 0 < numChunks) (maxBytes : Option Nat) :
    hexdump sep data numChunks maxBytes = firstLines sep numChunks data
      (numLines data.length numChunks (maxLines numChunks maxBytes)) := by
  have hloop : hexdump sep data numChunks maxBytes
      = hexdumpLoop sep numChunks (maxLines numChunks maxBytes) 0 [] data := by
    cases maxBytes <;> rfl
  rw [hloop]
  by_cases hdata : data = []
  · have hall : allLines 0 numChunks = 0 :=
      Nat.eq_zero_of_not_pos fun h => Nat.not_lt_zero _ ((lt_allLines_iff hn 0 0).mp h)
    have hzero := numLines_le 0 numChunks (maxLines numChunks maxBytes)
    rw [hall, Nat.le_zero] at hzero
    rw [hdata, hexdumpLoop, if_pos List.take_nil, List.length_nil, hzero]
    rfl
  · have hall : 0 < allLines data.length numChunks := by
      rw [lt_allLines_iff hn, Nat.zero_mul]
      exact List.length_pos_of_ne_nil hdata
    have h := @hexdumpLoop_eq sep numChunks data hn (maxLines numChunks maxBytes) 0
      (numLines_pos hall _)
    rwa [Nat.zero_mul] at h

/-- Under a limit that has no room for a line the dump shows all of the data. -/
theorem decode_hexdump_of_lt {m : Nat} (h : m < numChunks) :
    decode numChunks (hexdump sep data numChunks (some m)) = some data := by
  have hn : 0 < numChunks := Nat.zero_lt_of_lt h
  rw [hexdump_eq sep hn, decode_firstLines, maxLines_of_lt h,
    List.take_of_length_le (length_le_allLines hn _)]

/--
**A dump respects its limit exactly if the limit is none, or has room for a line, or for all
of the data.** A limit below the width of a line turns into a limit of zero lines, which the
loop takes for none.
-/
theorem showsData_iff {maxBytes : Option Nat} (hn : 0 < numChunks) (hmax : maxBytes ≠ some 0) :
    ShowsData numChunks maxBytes data (hexdump sep data numChunks maxBytes) ↔
      ∀ m, maxBytes = some m → numChunks ≤ m ∨ data.length ≤ m := by
  constructor
  · rintro ⟨-, -, shown, hshown, -, -, hlimit⟩ m rfl
    -- with less than one line allowed, there is no limit at all
    rcases Nat.lt_or_ge m numChunks with hm | hm
    · rw [decode_hexdump_of_lt sep hm] at hshown
      exact Or.inr (Option.some.inj hshown ▸ hlimit m rfl)
    · exact Or.inl hm
  · intro h
    rw [hexdump_eq sep hn]
    refine ⟨?_, ?_, _, decode_firstLines sep numChunks data _, List.take_prefix _ _, ?_, ?_⟩
    · intro k l hl
      rw [getElem?_firstLines sep numChunks data hl, lineAddress_line]
    · intro k l hl
      rw [getElem?_firstLines sep numChunks data hl, lineBytes_line sep _ (List.length_take_le _ _)]
    · rintro rfl
      exact List.take_of_length_le (length_le_allLines hn _)
    · rintro m rfl
      rcases h m rfl with hm | hm
      · refine Nat.le_trans (List.length_take_le _ _) ?_
        calc _ ≤ m / numChunks * numChunks :=
              Nat.mul_le_mul_right _ (numLines_maxLines_le hn hm _)
          _ ≤ m := Nat.div_mul_le_self m numChunks
      · exact Nat.le_trans (List.length_take_le' _ _) hm

theorem showsData_partial : ShowsData 16 (some 40) (List.replicate 50 0xe3)
    (hexdump true (List.replicate 50 0xe3) 16 (some 40)) :=
  (showsData_iff true (by decide) (by decide)).mpr fun m hm => Or.inl (by cases hm; decide)

/-- A limit of eight bytes on lines of sixteen: the dump shows all 32 bytes. -/
theorem not_showsData_narrow : ¬ ShowsData 16 (some 8) (List.replicate 32 0)
    (hexdump true (List.replicate 32 0) 16 (some 8)) := by
  rintro ⟨-, -, shown, hshown, -, -, hlimit⟩
  have hall : decode 16 (hexdump true (List.replicate 32 0) 16 (some 8))
      = some (List.replicate 32 0) := decode_hexdump_of_lt true (by decide)
  rw [hall] at hshown
  cases Option.some.inj hshown
  exact absurd (hlimit 8 rfl) (by decide)

end

end Hexdump

end LoneNvme
