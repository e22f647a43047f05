import XgtChain.Chain.BlockLog

/-!
# Opening a block log

On opening a log that has blocks, `open` compares the position that the index ends with with the one that
the main file ends with.
-/

namespace Xgt

open Base List Codec

namespace BlockLog

variable (codec : Codec SignedBlock)
variable {start endPos pos : Nat}

def indexLoop (endPos : Nat) : Nat → Nat → Bytes → Bytes → Result Bytes
  | fuel, pos, stream, index =>
    if pos < endPos then
      match fuel with
      | 0 => .error ⟨.other, "indexLoop"⟩
      | fuel + 1 => do
        let (_, rest) ← unpackBlock codec stream
        let pos ← readPos rest 0
        indexLoop endPos fuel pos (rest.drop 8) (index ++ leBytes 8 pos)
    else .ok index

def constructIndex (blockFile : Bytes) : Result Bytes := do
  let endPos ← lastPos blockFile
  fcAssert (endPos ≤ blockFile.length) "invalid block log end post, is block_log corrupt?"
  indexLoop codec endPos blockFile.length 0 blockFile []

def openLog (blockFile indexFile : Bytes) : Result BlockLog :=
  if blockFile.length ≠ 0 then do
    let head ← readHead codec { blockFile := blockFile, indexFile := indexFile }
    if indexFile.length ≠ 0 then
      let blockPos ← lastPos blockFile
      let indexPos ← lastPos indexFile
      if blockPos < indexPos then
        .ok ⟨blockFile, ← constructIndex codec blockFile, some head⟩
      else if indexPos < blockPos then
        .ok ⟨blockFile, ← constructIndex codec blockFile, some head⟩
      else .ok ⟨blockFile, indexFile, some head⟩
    else .ok ⟨blockFile, ← constructIndex codec blockFile, some head⟩
  else .ok {}

variable {codec} {blocks : List SignedBlock} {b : SignedBlock} {fuel : Nat}

theorem le_last_position (hend : (codec.positions start blocks).getLast? = some endPos) :
    start ≤ endPos := by
  induction blocks generalizing start with
  | nil => cases hend
  | cons b blocks ih =>
    rw [positions, getLast?_cons] at hend
    cases hrest : (codec.positions (start + (codec.record start b).length) blocks).getLast? with
    | none =>
      rw [hrest] at hend
      exact (Option.some_inj.1 hend).le
    | some last =>
      rw [hrest] at hend
      obtain rfl : last = endPos := Option.some_inj.1 hend
      exact (Nat.le_add_right _ _).trans (ih hrest)

theorem indexLoop_done (hpos : ¬pos < endPos) (fuel : Nat) (stream index : Bytes) :
    indexLoop codec endPos fuel pos stream index = .ok index := by
  cases fuel <;> rw [indexLoop, if_neg hpos]

theorem indexLoop_record (hb : codec.RoundTrips b) (hpos : pos < endPos)
    (hstart : start < 2 ^ 64) (rest index : Bytes) :
    indexLoop codec endPos (fuel + 1) pos (codec.record start b ++ rest) index =
      indexLoop codec endPos fuel start rest (index ++ leBytes 8 start) := by
  have hunpack : unpackBlock codec (codec.record start b ++ rest) = .ok (b, leBytes 8 start ++ rest) := by
    rw [unpackBlock, record, append_assoc, hb]
  have hread : readPos (leBytes 8 start ++ rest) 0 = .ok start := by
    have hread := readPos_append [] rest start
    rwa [nil_append, length_nil, Nat.mod_eq_of_lt hstart] at hread
  have hdrop : (leBytes 8 start ++ rest).drop 8 = rest := drop_left' (length_leBytes 8 start)
  rw [indexLoop, if_pos hpos]
  simp only [hunpack, hread, hdrop, bind, Except.bind]

theorem indexLoop_records (hround : ∀ b ∈ blocks, codec.RoundTrips b)
    (hend : (codec.positions start blocks).getLast? = some endPos) (hsize : endPos < 2 ^ 64)
    (hpos : pos < endPos) (hfuel : blocks.length ≤ fuel) (index : Bytes) :
    indexLoop codec endPos fuel pos (codec.records start blocks) index =
      .ok (index ++ (codec.positions start blocks).flatMap (leBytes 8)) := by
  induction blocks generalizing start pos fuel index with
  | nil => cases hend
  | cons b blocks ih =>
    obtain ⟨fuel, rfl⟩ : ∃ f, fuel = f + 1 := ⟨fuel - 1, by rw [length_cons] at hfuel; omega⟩
    have hstart := (le_last_position hend).trans_lt hsize
    rw [records, indexLoop_record (hround b (.head _)) hpos hstart, positions, flatMap_cons,
      ← append_assoc]
    rw [positions, getLast?_cons] at hend
    cases hrest : (codec.positions (start + (codec.record start b).length) blocks).getLast? with
    | none =>
      -- this was the last block, and its position ends the loop
      have hnil : blocks = [] := by
        rw [getLast?_eq_none_iff, ← length_eq_zero_iff, length_positions] at hrest
        exact length_eq_zero_iff.1 hrest
      rw [hrest] at hend
      obtain rfl : start = endPos := Option.some_inj.1 hend
      subst hnil
      rw [indexLoop_done (lt_irrefl _)]
      simp [positions]
    | some last =>
      rw [hrest] at hend
      obtain rfl : last = endPos := Option.some_inj.1 hend
      have hlt : start < last := by
        have hle := le_last_position hrest
        rw [length_record] at hle
        omega
      exact ih (fun b' hb' => hround b' (.tail _ hb')) hrest hlt
        (by rw [length_cons] at hfuel; omega) _

theorem constructIndex_records (hlen : 2 ≤ blocks.length) (hround : ∀ b ∈ blocks, codec.RoundTrips b)
    (hsize : (codec.records 0 blocks).length < 2 ^ 64) :
    constructIndex codec (codec.records 0 blocks) = .ok (indexOf codec blocks) := by
  obtain ⟨init, last, rfl⟩ : ∃ init last, blocks = init ++ [last] :=
    ⟨_, _, (dropLast_append_getLast (ne_nil_of_length_pos (by omega))).symm⟩
  have hle := codec.length_records_le init [last]
  have hend : (codec.positions 0 (init ++ [last])).getLast? = some (codec.records 0 init).length := by
    rw [positions_concat]
    simp
  -- there is a block before the last, so its position is not 0
  have hpos : 0 < (codec.records 0 init).length := by
    rw [length_append, length_singleton] at hlen
    have := codec.length_le_records 0 init
    omega
  have hloop := indexLoop_records hround hend (hle.trans_lt hsize) hpos (codec.length_le_records 0 _) []
  rw [constructIndex, lastPos_records hsize]
  simp only [bind, Except.bind, fcAssert, hle, decide_true, ensure_true, hloop, nil_append, indexOf]

theorem lastPos_of_le {file : Bytes} (h : 8 ≤ file.length) : ∃ pos, lastPos file = .ok pos :=
  ⟨_, by rw [lastPos, if_pos h, readPos, if_pos (by omega)]⟩

theorem openLog_rebuilds (hlen : 2 ≤ blocks.length) (hround : ∀ b ∈ blocks, codec.RoundTrips b)
    (hsize : (codec.records 0 blocks).length < 2 ^ 64) {old : Bytes} (hold : old = [] ∨ 8 ≤ old.length) :
    openLog codec (codec.records 0 blocks) old = .ok {
      blockFile := codec.records 0 blocks
      indexFile := if lastPos old = lastPos (codec.records 0 blocks) then old else indexOf codec blocks
      head := blocks.getLast? } := by
  have hindex := constructIndex_records hlen hround hsize
  have hnonempty : (codec.records 0 blocks).length ≠ 0 := by
    have := codec.length_le_records 0 blocks
    omega
  obtain ⟨init, last, rfl⟩ : ∃ init last, blocks = init ++ [last] :=
    ⟨_, _, (dropLast_append_getLast (ne_nil_of_length_pos (by omega))).symm⟩
  have hfile : Stores codec ⟨codec.records 0 (init ++ [last]), indexOf codec (init ++ [last]), _⟩
    (init ++ [last]) :=
    ⟨rfl, rfl, rfl⟩
  have hhead : readHead codec { blockFile := codec.records 0 (init ++ [last]), indexFile := old } = .ok last :=
    hfile.readHead (hround last (by simp)) hsize
  have hlast : (init ++ [last]).getLast? = some last := by simp
  rw [openLog, if_pos hnonempty, hhead, hlast, lastPos_records hsize]
  rcases hold with rfl | hold
  · have hnone : lastPos [] ≠ .ok (codec.records 0 init).length := by simp [lastPos]
    simp only [bind, Except.bind, length_nil, ne_eq, not_true, if_false, hindex, if_neg hnone]
  · obtain ⟨pos, hpos⟩ := lastPos_of_le hold
    have hne : old.length ≠ 0 := by omega
    simp only [bind, Except.bind, if_pos hne, hpos, Except.ok.injEq]
    rcases lt_trichotomy pos (codec.records 0 init).length with hlt | rfl | hgt
    · simp only [not_lt.2 hlt.le, if_false, hlt, if_true, hindex, hlt.ne]
    · simp only [lt_irrefl, if_false, if_true]
    · simp only [hgt, if_true, hindex, hgt.ne', if_false]

theorem openLog_rebuilds_two :
    openLog numberCodec (numberCodec.records 0 [numberedBlock 0, numberedBlock 1]) [] = .ok {
      blockFile := numberCodec.records 0 [numberedBlock 0, numberedBlock 1]
      indexFile := indexOf numberCodec [numberedBlock 0, numberedBlock 1]
      head := some (numberedBlock 1) } := by
  have hround : ∀ b ∈ [numberedBlock 0, numberedBlock 1], numberCodec.RoundTrips b := by
    intro b hb
    simp only [mem_cons, not_mem_nil, or_false] at hb
    rcases hb with rfl | rfl
    · exact roundTrips_numberedBlock (by decide)
    · exact roundTrips_numberedBlock (by decide)
  exact openLog_rebuilds (by decide) hround (by decide) (.inl rfl)

theorem openLog_keeps_wrong :
    let blocks := [numberedBlock 0, numberedBlock 1]
    let wrong := leBytes 8 7 ++ leBytes 8 16
    (openLog numberCodec (numberCodec.records 0 blocks) wrong).toOption.map (·.indexFile) = some wrong ∧
      wrong ≠ indexOf numberCodec blocks ∧
      (openLog numberCodec (numberCodec.records 0 [numberedBlock 0]) []).toOption.map (·.indexFile) = some [] ∧
      indexOf numberCodec [numberedBlock 0] = leBytes 8 0 := by
  decide

end BlockLog

end Xgt
