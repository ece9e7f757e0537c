/-
# Partition tables

`partition_scan` of `devices/partition.c`, without its messages.  `read_partition_table` reads
sector 0, whatever sector it is called for: an extended partition named there makes it read the same
table again.
-/

import Pintos.Devices.Block

namespace Pintos.Devices

open Base Kernel

structure TableEntry where
  type : ℕ
  offset : ℕ
  size : ℕ

def tableEntries (pt : Sector) : List TableEntry :=
  (List.range 4).map fun i => ⟨(pt.byte (446 + 16 * i + 4)).toNat,
    leWord (bytesAt pt.byte (446 + 16 * i + 8) 4), leWord (bytesAt pt.byte (446 + 16 * i + 12) 4)⟩

abbrev TableEntry.Empty (e : TableEntry) : Prop := e.size = 0 ∨ e.type = 0

abbrev TableEntry.Extended (e : TableEntry) : Prop := e.type ∈ [0x05, 0x0f, 0x85, 0xc5]

structure Partition where
  type : BlockType
  start : ℕ
  size : ℕ
  partNr : ℕ

structure Scan where
  partNr : ℕ := 0
  registered : List Partition := []
  /-- The sectors `read_partition_table` was called for, with the sectors it read. -/
  examined : List (ℕ × ℕ) := []
  /-- Whether the next calls of `malloc` succeed. -/
  mallocs : ℕ → Bool

abbrev Scans := ExceptT Panic Option

def Scans.lift {α : Type} (x : Kernel α) : Scans α := ExceptT.mk (some x)

def Scan.malloc (s : Scan) (message : String) : Kernel Scan :=
  if s.mallocs 0 then pure { s with mallocs := fun n => s.mallocs (n + 1) } else PANIC message

def partitionBlockType (type : ℕ) : BlockType :=
  if type = 0x20 then .BLOCK_KERNEL else if type = 0x21 then .BLOCK_FILESYS
  else if type = 0x22 then .BLOCK_SCRATCH else if type = 0x23 then .BLOCK_SWAP else .BLOCK_FOREIGN

def foundPartition (block : Block) (type start size : ℕ) (s : Scan) : Kernel Scan :=
  if block.size ≤ start then pure s
  else if u32 (start + size) < start ∨ block.size < u32 (start + size) then pure s
  else do
    let s ← s.malloc "Failed to allocate memory for partition descriptor"
    let s ← s.malloc "Failed to allocate memory for block device descriptor"
    return { s with registered := ⟨partitionBlockType type, start, size, s.partNr⟩ :: s.registered }

def scanEntry (block : Block) (recurse : ℕ → ℕ → Scan → Scans Scan) (sector primary : ℕ) (s : Scan)
    (e : TableEntry) : Scans Scan :=
  if e.Empty then pure s
  else if e.Extended then
    if sector = 0 then recurse e.offset e.offset s
    else recurse (u32 (e.offset + primary)) primary s
  else Scans.lift (foundPartition block e.type (u32 (e.offset + sector)) e.size
    { s with partNr := s.partNr + 1 })

def readPartitionTable (block : Block) : ℕ → ℕ → ℕ → Scan → Scans Scan
  | 0, _, _, _ => ExceptT.mk none
  | fuel + 1, sector, primary, s =>
    if block.size ≤ sector then pure s
    else do
      let s ← Scans.lift (s.malloc "Failed to allocate memory for partition table.")
      let pt ← Scans.lift (blockGet block 0)
      let s := { s with examined := (sector, 0) :: s.examined }
      if leWord (bytesAt pt.byte 510 2) ≠ 0xaa55 then return s
      (tableEntries pt).foldlM (scanEntry block (readPartitionTable block fuel) sector primary) s

def partitionScan (block : Block) (mallocs : ℕ → Bool) (fuel : ℕ) : Option (Kernel Scan) :=
  (readPartitionTable block fuel 0 0 { mallocs := mallocs }).run

structure Scan.Sound (block : Block) (s : Scan) : Prop where
  examined : ∀ x ∈ s.examined, x.1 = x.2
  inside : ∀ p ∈ s.registered, p.start + p.size ≤ block.size

variable {block : Block} {s s' : Scan}

lemma size_lt {pt : Sector} {e : TableEntry} (h : e ∈ tableEntries pt) : e.size < 2 ^ 32 := by
  obtain ⟨i, _, rfl⟩ := List.mem_map.1 h
  simp only [bytesAt, List.range, List.range.loop, List.map, leWord]
  omega

lemma Scan.malloc_sound {message : String} (h : s.Sound block) (hm : s.malloc message = .ok s') :
    s'.Sound block := by
  unfold Scan.malloc at hm
  split_ifs at hm
  · cases hm
    exact { h with }
  · cases hm

lemma foundPartition_sound {type start size : ℕ} (h : s.Sound block) (hsize : size < 2 ^ 32)
    (hf : foundPartition block type start size s = .ok s') : s'.Sound block := by
  unfold foundPartition at hf
  split_ifs at hf with hstart hend
  · cases hf
    exact h
  · cases hf
    exact h
  · obtain ⟨s₁, hs₁, hf⟩ := bind_eq_ok.1 hf
    obtain ⟨s₂, hs₂, hf⟩ := bind_eq_ok.1 hf
    cases hf
    have h₁ := Scan.malloc_sound (Scan.malloc_sound h hs₁) hs₂
    refine ⟨h₁.examined, fun p hp => ?_⟩
    rcases List.mem_cons.1 hp with rfl | hp
    · have hlt := block.size_lt
      simp only [u32] at hend
      show start + size ≤ block.size
      omega
    · exact h₁.inside p hp

lemma scanEntries_sound {es : List TableEntry} (h : s.Sound block)
    (hes : ∀ e ∈ es, e.size < 2 ^ 32 ∧ (¬ e.Empty → e.Extended → block.size ≤ e.offset)) :
    ∃ r : Kernel Scan, (es.foldlM (scanEntry block (readPartitionTable block 1) 0 0) s).run =
      some r ∧ ∀ s', r = .ok s' → s'.Sound block := by
  induction es generalizing s with
  | nil => exact ⟨.ok s, rfl, by simpa using h⟩
  | cons e es ih =>
    obtain ⟨⟨hsize, hext⟩, hes⟩ := List.forall_mem_cons.1 hes
    obtain ⟨r, hrun, hr⟩ : ∃ r : Kernel Scan, (scanEntry block (readPartitionTable block 1) 0 0 s
        e).run = some r ∧ ∀ s', r = .ok s' → s'.Sound block := by
      rw [scanEntry, if_pos (rfl : 0 = 0)]
      split_ifs with hempty hx
      · exact ⟨.ok s, rfl, by simpa using h⟩
      · exact ⟨.ok s, by rw [readPartitionTable, if_pos (hext hempty hx)]; rfl, by simpa using h⟩
      · have hs : Scan.Sound block { s with partNr := s.partNr + 1 } := { h with }
        exact ⟨_, rfl, fun s' => foundPartition_sound hs hsize⟩
    rw [List.foldlM_cons, ExceptT.run_bind, hrun]
    cases r with
    | error p => exact ⟨.error p, rfl, by simp⟩
    | ok s₁ => exact ih (hr s₁ rfl) hes

lemma partitionScan_sound (mallocs : ℕ → Bool)
    (h : leWord (bytesAt (block.sectors 0).byte 510 2) = 0xaa55 →
      ∀ e ∈ tableEntries (block.sectors 0), ¬ e.Empty → e.Extended → block.size ≤ e.offset) :
    ∃ r : Kernel Scan, partitionScan block mallocs 2 = some r ∧ ∀ s, r = .ok s → s.Sound block := by
  have h0 : Scan.Sound block { mallocs := mallocs } := ⟨by simp, by simp⟩
  rw [partitionScan, readPartitionTable]
  split_ifs with hsize
  · exact ⟨.ok _, rfl, by simpa using h0⟩
  cases hm : Scan.malloc { mallocs := mallocs }
    "Failed to allocate memory for partition table." with
  | error p => exact ⟨.error p, rfl, by simp⟩
  | ok s =>
    have hs : Scan.Sound block { s with examined := (0, 0) :: s.examined } := by
      have hs := Scan.malloc_sound h0 hm
      exact ⟨by simpa using hs.examined, hs.inside⟩
    rw [blockGet_ok (not_le.1 hsize)]
    by_cases hsig : leWord (bytesAt (block.sectors 0).byte 510 2) ≠ 0xaa55
    · exact ⟨.ok _, congrArg ExceptT.run (if_pos hsig), by simpa using hs⟩
    · obtain ⟨r, hrun, hr⟩ := scanEntries_sound hs fun e he => ⟨size_lt he, h (not_not.1 hsig) e he⟩
      exact ⟨r, (congrArg ExceptT.run (if_neg hsig)).trans hrun, hr⟩

section Misread

/-- A scan that does not end, or ends well with `P`. -/
def Scans.Leaves (P : Scan → Prop) (x : Scans Scan) : Prop :=
  x.run = none ∨ ∃ s, x.run = some (.ok s) ∧ P s

/-- Memory does not run out, and if `B` then a table other than the one asked for has been read. -/
structure Scan.Misread (B : Prop) (s : Scan) : Prop where
  mallocs : ∀ n, s.mallocs n = true
  examined : B → ∃ x ∈ s.examined, x.1 ≠ x.2

variable {B : Prop} {recurse : ℕ → ℕ → Scan → Scans Scan} {sector primary : ℕ}

lemma Scans.Leaves.bind {P Q : Scan → Prop} {x : Scans Scan} {f : Scan → Scans Scan}
    (hx : x.Leaves P) (hf : ∀ s, P s → (f s).Leaves Q) : (x >>= f).Leaves Q := by
  unfold Scans.Leaves at *
  rw [ExceptT.run_bind]
  obtain hx | ⟨s, hx, hs⟩ := hx
  · exact .inl (by rw [hx]; rfl)
  · rw [hx]
    exact hf s hs

lemma Scans.Leaves.mono {P Q : Scan → Prop} {x : Scans Scan} (hx : x.Leaves P)
    (hPQ : ∀ s, P s → Q s) : x.Leaves Q :=
  hx.imp_right fun ⟨s, hs, hP⟩ => ⟨s, hs, hPQ s hP⟩

lemma Scan.malloc_misread {message : String} (h : s.Misread B) :
    ∃ s', s.malloc message = .ok s' ∧ s'.Misread B :=
  ⟨_, if_pos (h.mallocs 0), fun n => h.mallocs (n + 1), h.examined⟩

lemma foundPartition_misread {type start size : ℕ} (h : s.Misread B) :
    ∃ s', foundPartition block type start size s = .ok s' ∧ s'.Misread B := by
  unfold foundPartition
  split_ifs
  · exact ⟨s, rfl, h⟩
  · exact ⟨s, rfl, h⟩
  · obtain ⟨s₁, hs₁, h₁⟩ := @Scan.malloc_misread s B
      "Failed to allocate memory for partition descriptor" h
    obtain ⟨s₂, hs₂, h₂⟩ := @Scan.malloc_misread s₁ B
      "Failed to allocate memory for block device descriptor" h₁
    rw [hs₁, ok_bind, hs₂]
    exact ⟨_, rfl, { h₂ with }⟩

lemma scanEntry_misread {e : TableEntry} (h : s.Misread B)
    (hrec : ∀ a b s, Scan.Misread B s → (recurse a b s).Leaves (Scan.Misread B)) :
    (scanEntry block recurse sector primary s e).Leaves (Scan.Misread B) := by
  unfold scanEntry
  split_ifs
  · exact .inr ⟨s, rfl, h⟩
  · exact hrec _ _ s h
  · exact hrec _ _ s h
  · obtain ⟨s', hs', h'⟩ := @foundPartition_misread block { s with partNr := s.partNr + 1 } B e.type
      (u32 (e.offset + sector)) e.size { h with }
    exact .inr ⟨s', congrArg some hs', h'⟩

lemma scanEntries_misread {es : List TableEntry} (h : s.Misread B)
    (hrec : ∀ a b s, Scan.Misread B s → (recurse a b s).Leaves (Scan.Misread B)) :
    (es.foldlM (scanEntry block recurse sector primary) s).Leaves (Scan.Misread B) := by
  induction es generalizing s with
  | nil => exact .inr ⟨s, rfl, h⟩
  | cons e es ih =>
    rw [List.foldlM_cons]
    exact (scanEntry_misread h hrec).bind fun s hs => ih hs

/-- The scan, once it has read the table of sector 0 for `sector`. -/
def Scan.read (s : Scan) (sector : ℕ) : Scan :=
  { s with examined := (sector, 0) :: s.examined, mallocs := fun n => s.mallocs (n + 1) }

lemma readPartitionTable_read {fuel : ℕ} (hsize : sector < block.size) (h : s.mallocs 0 = true) :
    readPartitionTable block (fuel + 1) sector primary s =
      if leWord (bytesAt (block.sectors 0).byte 510 2) ≠ 0xaa55 then pure (s.read sector)
      else (tableEntries (block.sectors 0)).foldlM
        (scanEntry block (readPartitionTable block fuel) sector primary) (s.read sector) := by
  rw [readPartitionTable, if_neg (not_le.2 hsize), Scan.malloc, if_pos h, blockGet_ok (by omega)]
  rfl

lemma Scan.read_misread (h : s.Misread B) : (s.read sector).Misread (B ∨ sector ≠ 0) :=
  ⟨fun n => h.mallocs (n + 1), fun hB => hB.elim
    (fun hB => (h.examined hB).imp fun _ hx => ⟨.tail _ hx.1, hx.2⟩) fun hne => ⟨_, .head _, hne⟩⟩

lemma readPartitionTable_misread {fuel : ℕ} (h : s.Misread B) :
    (readPartitionTable block fuel sector primary s).Leaves
      (Scan.Misread (B ∨ sector < block.size ∧ sector ≠ 0)) := by
  induction fuel generalizing s sector primary B with
  | zero => exact .inl rfl
  | succ fuel ih =>
    by_cases hsize : sector < block.size
    · have hread : (s.read sector).Misread (B ∨ sector < block.size ∧ sector ≠ 0) := by
        simpa [hsize] using Scan.read_misread h
      rw [readPartitionTable_read hsize (h.mallocs 0)]
      split_ifs
      · exact .inr ⟨_, rfl, hread⟩
      · refine scanEntries_misread hread fun a b s hs => ?_
        exact (ih hs).mono fun s hs => ⟨hs.mallocs, fun hB => hs.examined (.inl hB)⟩
    · rw [readPartitionTable, if_pos (not_lt.1 hsize)]
      exact .inr ⟨s, rfl, h.mallocs, fun hB => h.examined (hB.resolve_right fun h => hsize h.1)⟩

/-- An extended partition that lies on the device is never passed over. -/
lemma readPartitionTable_extended {e : TableEntry} {fuel : ℕ} (h : s.Misread False)
    (hsig : leWord (bytesAt (block.sectors 0).byte 510 2) = 0xaa55)
    (he : e ∈ tableEntries (block.sectors 0)) (hempty : ¬ e.Empty) (hext : e.Extended)
    (hsize : e.offset < block.size) :
    (readPartitionTable block fuel 0 0 s).Leaves (Scan.Misread True) := by
  induction fuel generalizing s with
  | zero => exact .inl rfl
  | succ fuel ih =>
    rw [readPartitionTable_read (by omega) (h.mallocs 0), if_neg (not_not.2 hsig)]
    obtain ⟨before, after, hes⟩ := List.append_of_mem he
    rw [hes, List.foldlM_append]
    have hread : (s.read 0).Misread False := ⟨(Scan.read_misread h).mallocs, False.elim⟩
    refine (scanEntries_misread hread fun a b s hs => ?_).bind fun s hs => ?_
    · exact (readPartitionTable_misread hs).mono fun s hs => ⟨hs.mallocs, False.elim⟩
    rw [List.foldlM_cons]
    refine Scans.Leaves.bind (P := Scan.Misread True) ?_ fun s hs => scanEntries_misread hs ?_
    · rw [scanEntry, if_neg hempty, if_pos hext, if_pos rfl]
      by_cases h0 : e.offset = 0
      · rw [h0]
        exact ih hs
      · exact (readPartitionTable_misread hs).mono
          fun s hs => ⟨hs.mallocs, fun _ => hs.examined (.inr ⟨hsize, h0⟩)⟩
    · exact fun a b s hs => (readPartitionTable_misread hs).mono
        fun s hs => ⟨hs.mallocs, fun hB => hs.examined (.inl hB)⟩

end Misread

/-- **The scan ends** and examines every table it asks for exactly if no extended partition that
sector 0 names lies on the device; what it registers is then inside the device. -/
theorem partition_scan_sound : (∀ mallocs, ∃ fuel r, partitionScan block mallocs fuel = some r ∧
      ∀ s, r = .ok s → (∀ x ∈ s.examined, x.1 = x.2) ∧
        ∀ p ∈ s.registered, p.start + p.size ≤ block.size) ↔
    (leWord (bytesAt (block.sectors 0).byte 510 2) = 0xaa55 →
      ∀ e ∈ tableEntries (block.sectors 0), ¬ e.Empty → e.Extended → block.size ≤ e.offset) := by
  refine ⟨fun h hsig e he hempty hext => not_lt.1 fun hsize => ?_, fun h mallocs => ?_⟩
  · obtain ⟨fuel, r, hrun, hr⟩ := h fun _ => true
    have hs : Scan.Misread False { mallocs := fun _ => true } := ⟨fun _ => rfl, False.elim⟩
    obtain hnone | ⟨s, hs, hmis⟩ := readPartitionTable_extended hs hsig he hempty hext hsize
    · cases hnone.symm.trans hrun
    · obtain ⟨x, hx, hne⟩ := hmis.examined trivial
      exact hne ((hr s (Option.some.inj (hrun.symm.trans hs))).1 x hx)
  · obtain ⟨r, hrun, hr⟩ := partitionScan_sound mallocs h
    exact ⟨2, r, hrun, fun s hs => ⟨(hr s hs).examined, (hr s hs).inside⟩⟩

def oneEntry (type offset : ℕ) : Block := ⟨.BLOCK_RAW, 10, fun _ o =>
  if o.val = 450 then .ofNat 8 type else if o.val = 454 then .ofNat 8 offset
  else if o.val = 458 then 1 else if o.val = 510 then 0x55 else if o.val = 511 then 0xaa else 0,
  by decide⟩

lemma readPartitionTable_again {rest : List TableEntry} (hsize : 0 < block.size)
    (hsig : leWord (bytesAt (block.sectors 0).byte 510 2) = 0xaa55)
    (hentries : tableEntries (block.sectors 0) = ⟨5, 0, 1⟩ :: rest) (fuel : ℕ) {s : Scan}
    (hs : ∀ n, s.mallocs n = true) : (readPartitionTable block fuel 0 0 s).run = none := by
  induction fuel generalizing s with
  | zero => rfl
  | succ fuel ih =>
    rw [readPartitionTable_read hsize (hs 0), if_neg (not_not.2 hsig), hentries, List.foldlM_cons,
      scanEntry, if_neg (by decide), if_pos (by decide), if_pos rfl, ExceptT.run_bind,
      ih fun n => hs (n + 1)]
    rfl

/-- **Extended partitions defeat the scan**: one in sector 0 is scanned again and again, for one in
sector 5 sector 0 is read. -/
theorem partition_scan_loops : (∀ fuel, partitionScan (oneEntry 5 0) (fun _ => true) fuel = none) ∧
    ∃ s, partitionScan (oneEntry 5 5) (fun _ => true) 3 = some (.ok s) ∧ (5, 0) ∈ s.examined :=
  ⟨fun fuel => readPartitionTable_again (by decide) (by decide) rfl fuel fun _ => rfl, _, rfl,
    .head _⟩

end Pintos.Devices
