import XgtChain.Base.Records
import XgtChain.Chain.PushBlock

/-!
# The block log

The log is two files.
-/

namespace Xgt

open Base Codec List Nat

structure BlockLog where
  blockFile : Bytes := []
  indexFile : Bytes := []
  head : Option SignedBlock := none

namespace BlockLog

variable (codec : Codec SignedBlock) (file : Bytes)

def readPos (at_ : Nat) : Result Nat :=
  if at_ + 8 ≤ file.length then .ok (leNat ((file.drop at_).take 8))
  else .error ⟨.other, "basic_ios::clear: iostream error"⟩

def lastPos : Result Nat :=
  if 8 ≤ file.length then readPos file (file.length - 8)
  else .error ⟨.other, "basic_ios::clear: iostream error"⟩

def unpackBlock (stream : Bytes) : Result (SignedBlock × Bytes) :=
  match codec.unpack stream with
  | some r => .ok r
  | none => .error ⟨.other, "unpack"⟩

def append (log : BlockLog) (b : SignedBlock) : Result (Nat × BlockLog) := do
  let pos := log.blockFile.length
  fcAssert (log.indexFile.length = 8 * ((b.blockNum + (2 ^ 32 - 1)) % 2 ^ 32))
    "Append to index file occuring at wrong position."
  .ok (pos,
    { blockFile := log.blockFile ++ codec.pack b ++ leBytes 8 pos
      indexFile := log.indexFile ++ leBytes 8 pos
      head := some b })

def readBlock (log : BlockLog) (pos : Nat) : Result (SignedBlock × Nat) := do
  let (b, rest) ← unpackBlock codec (log.blockFile.drop pos)
  .ok (b, log.blockFile.length - rest.length + 8)

def npos : Nat := 2 ^ 64 - 1

def getBlockPos (log : BlockLog) (num : Nat) : Result Nat :=
  match log.head with
  | some h => if num ≤ h.blockNum ∧ 0 < num then readPos log.indexFile (8 * (num - 1)) else .ok npos
  | none => .ok npos

def readBlockByNum (log : BlockLog) (num : Nat) : Result (Option SignedBlock) := do
  let pos ← log.getBlockPos num
  if pos ≠ npos then
    let (b, _) ← log.readBlock codec pos
    fcAssert (b.blockNum = num) "Wrong block was read from block log."
    .ok (some b)
  else .ok none

def readHead (log : BlockLog) : Result SignedBlock := do
  let pos ← lastPos log.blockFile
  let (b, _) ← log.readBlock codec pos
  .ok b

def walk (log : BlockLog) : Nat → Nat → Result (List SignedBlock)
  | 0, _ => .ok []
  | k + 1, pos => do
    let (b, next) ← log.readBlock codec pos
    let rest ← log.walk k next
    .ok (b :: rest)

def indexOf (blocks : List SignedBlock) : Bytes := (codec.positions 0 blocks).flatMap (leBytes 8)

structure Stores (log : BlockLog) (blocks : List SignedBlock) : Prop where
  blockFile : log.blockFile = codec.records 0 blocks
  indexFile : log.indexFile = indexOf codec blocks
  head : log.head = blocks.getLast?

variable {codec} {log : BlockLog} {blocks : List SignedBlock} {b : SignedBlock} {after : List SignedBlock}
  (k : Nat)

theorem length_flatMap_leBytes (ps : List Nat) : (ps.flatMap (leBytes 8)).length = 8 * ps.length := by
  induction ps with
  | nil => rfl
  | cons p ps ih => rw [flatMap_cons, length_append, ih, length_leBytes, length_cons]; omega

theorem length_indexOf (codec : Codec SignedBlock) (blocks : List SignedBlock) :
    (indexOf codec blocks).length = 8 * blocks.length := by
  rw [indexOf, length_flatMap_leBytes, length_positions]

theorem Stores.empty : Stores codec {} [] := ⟨rfl, rfl, rfl⟩

theorem readPos_append (before after : Bytes) (pos : Nat) :
    readPos (before ++ (leBytes 8 pos ++ after)) before.length = .ok (pos % 2 ^ 64) := by
  have hlen : before.length + 8 ≤ (before ++ (leBytes 8 pos ++ after)).length := by simp
  rw [readPos, if_pos hlen, drop_left, take_left' (length_leBytes 8 pos), leNat_leBytes]
  rfl

theorem lastPos_append (before : Bytes) (pos : Nat) : lastPos (before ++ leBytes 8 pos) =
    .ok (pos % 2 ^ 64) := by
  have hlen : (before ++ leBytes 8 pos).length - 8 = before.length := by simp
  have hread := readPos_append before [] pos
  rw [append_nil] at hread
  rw [lastPos, if_pos (by simp), hlen, hread]

def Fits (blocks : List SignedBlock) (b : SignedBlock) : Prop :=
  blocks.length = (b.blockNum + (2 ^ 32 - 1)) % 2 ^ 32

theorem Stores.append (h : Stores codec log blocks) (hfits : Fits blocks b) :
    ∃ log', log.append codec b = .ok ((codec.records 0 blocks).length, log') ∧
      Stores codec log' (blocks ++ [b]) := by
  have hindex : log.indexFile.length = 8 * ((b.blockNum + (2 ^ 32 - 1)) % 2 ^ 32) := by
    rw [h.indexFile, length_indexOf, hfits]
  refine ⟨{ blockFile := log.blockFile ++ codec.pack b ++ leBytes 8 log.blockFile.length,
            indexFile := log.indexFile ++ leBytes 8 log.blockFile.length, head := some b }, ?_, ?_, ?_, ?_⟩
  · rw [BlockLog.append, hindex, h.blockFile]
    simp [fcAssert]
  · rw [h.blockFile, records_concat, Codec.record, append_assoc]
  · rw [h.indexFile, h.blockFile, indexOf, indexOf, positions_concat, flatMap_append]
    simp
  · simp

theorem Stores.append_refused (h : Stores codec log blocks) (hfits : ¬Fits blocks b) :
    ∃ e, log.append codec b = .error e := by
  have hindex : log.indexFile.length ≠ 8 * ((b.blockNum + (2 ^ 32 - 1)) % 2 ^ 32) := by
    rw [h.indexFile, length_indexOf]
    exact fun heq => hfits (Nat.eq_of_mul_eq_mul_left (by decide) heq)
  refine ⟨⟨.assertException, "Append to index file occuring at wrong position."⟩, ?_⟩
  rw [BlockLog.append, decide_eq_false hindex]
  rfl

theorem fits_iff (hcount : blocks.length < 2 ^ 32 - 1) (b : SignedBlock) :
    Fits blocks b ↔ b.blockNum = blocks.length + 1 := by
  have hb : b.blockNum < 2 ^ 32 := mod_lt _ (by decide)
  unfold Fits
  omega

/-! ## Reading -/

theorem Stores.readBlock (h : Stores codec log (blocks ++ b :: after)) (hb : codec.RoundTrips b) :
    log.readBlock codec (codec.records 0 blocks).length =
      .ok (b, (codec.records 0 (blocks ++ [b])).length) := by
  have hdrop := codec.drop_records blocks after b
  have hunpack := hb (leBytes 8 (codec.records 0 blocks).length ++ codec.records
    ((codec.records 0 blocks).length +
    (codec.record (codec.records 0 blocks).length b).length) after)
  rw [← hdrop] at hunpack
  -- the stream ends before the eight bytes of the position, and the next block is after them
  have hnext : (codec.records 0 (blocks ++ b :: after)).length - (leBytes 8 (codec.records 0 blocks).length ++
      codec.records ((codec.records 0 blocks).length + (codec.record (codec.records 0 blocks).length b).length)
        after).length + 8 = (codec.records 0 (blocks ++ [b])).length := by
    rw [records_append, records_concat, Codec.records]
    simp only [length_append, length_leBytes, length_record, zero_add]
    omega
  rw [BlockLog.readBlock, h.blockFile, unpackBlock, hunpack]
  exact congrArg (fun next => Except.ok (b, next)) hnext

theorem Stores.readPos (h : Stores codec log (blocks ++ b :: after))
    (hsize : (codec.records 0 (blocks ++ b :: after)).length < 2 ^ 64) :
    BlockLog.readPos log.indexFile (8 * blocks.length) = .ok (codec.records 0 blocks).length := by
  have hsplit : log.indexFile = indexOf codec blocks ++ (leBytes 8 (codec.records 0 blocks).length ++
      (codec.positions ((codec.records 0 blocks).length +
        (codec.record (codec.records 0 blocks).length b).length) after).flatMap (leBytes 8)) := by
    rw [h.indexFile, indexOf, positions_append, flatMap_append, zero_add, Codec.positions,
      flatMap_cons]
    rfl
  have hlt := (codec.length_records_le blocks (b :: after)).trans_lt hsize
  rw [hsplit, ← length_indexOf codec blocks, readPos_append, mod_eq_of_lt hlt]

def Numbered (blocks : List SignedBlock) : Prop := ∀ i (hi : i < blocks.length), (blocks[i]).blockNum = i + 1

theorem Numbered.getLast (h : Numbered blocks) {last : SignedBlock} (hlast : blocks.getLast? = some last) :
    last.blockNum = blocks.length := by
  have hne : blocks ≠ [] := by rintro rfl; cases hlast
  have hpos := length_pos_of_ne_nil hne
  rw [getLast?_eq_some_getLast hne, Option.some_inj, getLast_eq_getElem] at hlast
  rw [← hlast, h _ (by omega)]
  omega

theorem Numbered.concat (h : Numbered blocks) (hb : b.blockNum = blocks.length + 1) : Numbered
    (blocks ++ [b]) := by
  intro i hi
  rcases lt_or_ge i blocks.length with hlt | hge
  · rw [getElem_append_left hlt]
    exact h i hlt
  · obtain rfl : i = blocks.length := by
      rw [length_append, length_singleton] at hi
      omega
    rw [getElem_concat_length rfl]
    exact hb

theorem Stores.readBlockByNum (h : Stores codec log blocks) (hnum : Numbered blocks)
    (hsize : (codec.records 0 blocks).length < 2 ^ 64) (hround : ∀ b ∈ blocks, codec.RoundTrips b) (i : Nat) :
    log.readBlockByNum codec (i + 1) = .ok blocks[i]? := by
  by_cases hi : i < blocks.length
  · -- the blocks before it give its position in both files
    have hsplit : blocks = blocks.take i ++ blocks[i] :: blocks.drop (i + 1) := by
      rw [cons_getElem_drop_succ, take_append_drop]
    have hlen : (blocks.take i).length = i := length_take_of_le hi.le
    have h' : Stores codec log (blocks.take i ++ blocks[i] :: blocks.drop (i + 1)) := hsplit ▸ h
    have hread := h'.readBlock (hround _ (getElem_mem hi))
    have hpos := h'.readPos (hsplit ▸ hsize)
    rw [hlen] at hpos
    have hne : (codec.records 0 (blocks.take i)).length ≠ npos := by
      have hle := codec.length_records_le (blocks.take i ++ [blocks[i]]) (blocks.drop (i + 1))
      rw [append_assoc, singleton_append, ← hsplit, records_concat, length_append,
        length_record] at hle
      unfold npos
      omega
    obtain ⟨last, hlast⟩ : ∃ last, blocks.getLast? = some last :=
      ⟨_, getLast?_eq_some_getLast (ne_nil_of_length_pos (zero_lt_of_lt hi))⟩
    have hget : log.getBlockPos (i + 1) = .ok (codec.records 0 (blocks.take i)).length := by
      have hrange : i + 1 ≤ last.blockNum ∧ 0 < i + 1 := by
        rw [hnum.getLast hlast]
        exact ⟨hi, succ_pos i⟩
      rw [getBlockPos, h.head, hlast]
      exact (if_pos hrange).trans hpos
    rw [getElem?_eq_getElem hi]
    simp only [BlockLog.readBlockByNum, hget, bind, Except.bind, if_pos hne, hread, hnum i hi,
      fcAssert, decide_true,
      ensure_true]
  · have hget : log.getBlockPos (i + 1) = .ok npos := by
      rw [getBlockPos, h.head]
      cases hlast : blocks.getLast? with
      | none => rfl
      | some last =>
        refine if_neg fun hrange => ?_
        rw [hnum.getLast hlast] at hrange
        omega
    rw [getElem?_eq_none (not_lt.1 hi)]
    simp only [BlockLog.readBlockByNum, hget, bind, Except.bind, ne_eq, not_true, if_false]

theorem Stores.walk (hround : ∀ b ∈ blocks, codec.RoundTrips b) (before : List SignedBlock)
    (h : Stores codec log (before ++ blocks)) :
    log.walk codec blocks.length (codec.records 0 before).length = .ok blocks := by
  induction blocks generalizing before with
  | nil => rfl
  | cons b blocks ih =>
    have hread := h.readBlock (hround b (.head _))
    have hrest := ih (fun b' hb' => hround b' (.tail _ hb')) (before ++ [b])
      (by rwa [append_assoc, singleton_append])
    simp only [BlockLog.walk, length_cons, hread, hrest, bind, Except.bind]

theorem lastPos_records (hsize : (codec.records 0 (blocks ++ [b])).length < 2 ^ 64) :
    lastPos (codec.records 0 (blocks ++ [b])) = .ok (codec.records 0 blocks).length := by
  have hlt := (codec.length_records_le blocks [b]).trans_lt hsize
  rw [records_concat, Codec.record, ← append_assoc, lastPos_append, mod_eq_of_lt hlt]

theorem Stores.readHead (h : Stores codec log (blocks ++ [b])) (hb : codec.RoundTrips b)
    (hsize : (codec.records 0 (blocks ++ [b])).length < 2 ^ 64) : log.readHead codec = .ok b := by
  have hread := h.readBlock hb
  rw [BlockLog.readHead, h.blockFile, lastPos_records hsize]
  simp only [bind, Except.bind, hread]

def tryAppend (codec : Codec SignedBlock) (log : BlockLog) (b : SignedBlock) : BlockLog :=
  match log.append codec b with
  | .ok (_, log') => log'
  | .error _ => log

def store (blocks : List SignedBlock) (b : SignedBlock) : List SignedBlock :=
  if b.blockNum = blocks.length + 1 then blocks ++ [b] else blocks

theorem length_le_store (blocks attempts : List SignedBlock) :
    blocks.length ≤ (attempts.foldl store blocks).length := by
  induction attempts generalizing blocks with
  | nil => exact le_refl _
  | cons b attempts ih =>
    refine le_trans ?_ (ih (store blocks b))
    unfold store
    split_ifs <;> simp

theorem Stores.tryAppend (h : Stores codec log blocks) (hcount : blocks.length < 2 ^ 32 - 1) (b : SignedBlock) :
    Stores codec (tryAppend codec log b) (store blocks b) := by
  unfold BlockLog.tryAppend store
  by_cases hfits : Fits blocks b
  · obtain ⟨log', happend, hstores⟩ := h.append hfits
    rwa [if_pos ((fits_iff hcount b).1 hfits), happend]
  · obtain ⟨e, hrefused⟩ := h.append_refused hfits
    rwa [if_neg (mt (fits_iff hcount b).2 hfits), hrefused]

theorem numbered_store (h : Numbered blocks) (b : SignedBlock) : Numbered (store blocks b) := by
  unfold store
  split_ifs with hb
  · exact h.concat hb
  · exact h

theorem Stores.foldl_tryAppend (h : Stores codec log blocks) (hnum : Numbered blocks)
    (attempts : List SignedBlock)
    (hcount : (attempts.foldl store blocks).length < 2 ^ 32 - 1) :
    Stores codec (attempts.foldl (BlockLog.tryAppend codec) log) (attempts.foldl store blocks) ∧
      Numbered (attempts.foldl store blocks) := by
  induction attempts generalizing log blocks with
  | nil => exact ⟨h, hnum⟩
  | cons b attempts ih =>
    have hle : blocks.length < 2 ^ 32 - 1 := (length_le_store blocks (b :: attempts)).trans_lt hcount
    exact ih (h.tryAppend hle b) (numbered_store hnum b) hcount

/-- The log answers as the list of its blocks does. -/
structure Reads (codec : Codec SignedBlock) (log : BlockLog) (blocks : List SignedBlock) : Prop where
  append_iff : ∀ b, (∃ r, log.append codec b = .ok r) ↔ b.blockNum = blocks.length + 1
  refused : ∀ b, b.blockNum ≠ blocks.length + 1 → BlockLog.tryAppend codec log b = log
  byNum : ∀ i, log.readBlockByNum codec (i + 1) = .ok blocks[i]?
  walk : log.walk codec blocks.length 0 = .ok blocks
  head : log.head = blocks.getLast?
  readHead : ∀ b, blocks.getLast? = some b → log.readHead codec = .ok b

theorem Stores.reads (h : Stores codec log blocks) (hnum : Numbered blocks)
    (hcount : blocks.length < 2 ^ 32 - 1)
    (hsize : (codec.records 0 blocks).length < 2 ^ 64) (hround : ∀ b ∈ blocks, codec.RoundTrips b) :
    Reads codec log blocks where
  append_iff b := by
    rw [← fits_iff hcount]
    constructor
    · rintro ⟨r, hr⟩
      by_contra hfits
      obtain ⟨e, he⟩ := h.append_refused hfits
      rw [hr] at he
      cases he
    · intro hfits
      obtain ⟨log', hlog', -⟩ := h.append hfits
      exact ⟨_, hlog'⟩
  refused b hb := by
    obtain ⟨e, he⟩ := h.append_refused (mt (fits_iff hcount b).1 hb)
    rw [BlockLog.tryAppend, he]
  byNum := h.readBlockByNum hnum hsize hround
  walk := Stores.walk hround [] h
  head := h.head
  readHead b hb := by
    obtain ⟨init, rfl⟩ := getLast?_eq_some_iff.1 hb
    exact h.readHead (hround b (by simp)) hsize

theorem appends_stored (codec : Codec SignedBlock) (attempts : List SignedBlock)
    (hcount : (attempts.foldl store []).length < 2 ^ 32 - 1)
    (hsize : (codec.records 0 (attempts.foldl store [])).length < 2 ^ 64)
    (hround : ∀ b ∈ attempts.foldl store [], codec.RoundTrips b) :
    Reads codec (attempts.foldl (BlockLog.tryAppend codec) {}) (attempts.foldl store []) := by
  have hempty : Stores codec {} [] := .empty
  obtain ⟨hstores, hnum⟩ := hempty.foldl_tryAppend (fun i hi => by cases hi) attempts hcount
  exact hstores.reads hnum hcount hsize hround

def numberedBlock : SignedBlock := toyBlock ⟨k, 0⟩ 0 [] ""

def numberCodec : Codec SignedBlock where
  pack b := leBytes 8 b.previous.num
  unpack bytes := if 8 ≤ bytes.length then some (numberedBlock (leNat (bytes.take 8)), bytes.drop 8) else none

theorem blockNum_numberedBlock : (numberedBlock k).blockNum = (k + 1) % 2 ^ 32 := rfl

theorem roundTrips_numberedBlock {k : Nat} (hk : k < 2 ^ 64) : numberCodec.RoundTrips (numberedBlock k) := by
  intro rest
  have hpack : numberCodec.pack (numberedBlock k) = leBytes 8 k := rfl
  have hnumber : leNat (leBytes 8 k) = k := (leNat_leBytes 8 k).trans (mod_eq_of_lt hk)
  have hlen : 8 ≤ (leBytes 8 k ++ rest).length := by simp
  rw [hpack, numberCodec]
  dsimp only
  rw [if_pos hlen, take_left' (length_leBytes 8 k), drop_left' (length_leBytes 8 k), hnumber]

theorem appends_stored_two :
    Reads numberCodec ([numberedBlock 0, numberedBlock 5, numberedBlock 1].foldl
      (BlockLog.tryAppend numberCodec) {})
      [numberedBlock 0, numberedBlock 1] := by
  refine appends_stored numberCodec [numberedBlock 0, numberedBlock 5, numberedBlock 1] (by decide)
    (by decide) ?_
  intro b hb
  have hb : b ∈ [numberedBlock 0, numberedBlock 1] := hb
  simp only [mem_cons, not_mem_nil, or_false] at hb
  rcases hb with rfl | rfl
  · exact roundTrips_numberedBlock (by decide)
  · exact roundTrips_numberedBlock (by decide)

theorem stores_numbered {n : Nat} (hn : n ≤ 2 ^ 32) :
    ∃ log, ((List.range n).map numberedBlock).foldlM (fun log b =>
      (BlockLog.append numberCodec log b).map Prod.snd) {} =
        Except.ok log ∧ Stores numberCodec log ((List.range n).map numberedBlock) := by
  induction n with
  | zero => exact ⟨{}, rfl, .empty⟩
  | succ n ih =>
    obtain ⟨log, hrun, hstores⟩ := ih (by omega)
    have hfits : Fits ((List.range n).map numberedBlock) (numberedBlock n) := by
      unfold Fits
      rw [length_map, length_range, blockNum_numberedBlock]
      omega
    obtain ⟨log', happend, hstores'⟩ := hstores.append hfits
    refine ⟨log', ?_, ?_⟩
    · rw [range_succ, map_append, foldlM_append, hrun]
      simp [happend, bind, Except.bind, Except.map, pure, Except.pure]
    · rwa [range_succ, map_append]

theorem log_wraps : ∃ (blocks : List SignedBlock) (log : BlockLog), blocks.length = 2 ^ 32 ∧
    blocks.foldlM (fun log b => (BlockLog.append numberCodec log b).map Prod.snd) {} = Except.ok log ∧
    log.readBlockByNum numberCodec 1 = .ok none := by
  obtain ⟨n, hn⟩ : ∃ n, n + 1 = 2 ^ 32 := ⟨2 ^ 32 - 1, by decide⟩
  obtain ⟨log, hrun, hstores⟩ := stores_numbered hn.le
  refine ⟨_, log, by rw [length_map, length_range, hn], hrun, ?_⟩
  have hlast : ((List.range (n + 1)).map numberedBlock).getLast? = some (numberedBlock n) := by
    rw [range_succ, map_append]
    simp
  have hzero : (numberedBlock n).blockNum = 0 := by rw [blockNum_numberedBlock, hn, mod_self]
  have hget : log.getBlockPos 1 = .ok npos := by
    rw [getBlockPos, hstores.head, hlast]
    exact if_neg (by rw [hzero]; decide)
  simp only [BlockLog.readBlockByNum, hget, bind, Except.bind, ne_eq, not_true, if_false]

end BlockLog

end Xgt
