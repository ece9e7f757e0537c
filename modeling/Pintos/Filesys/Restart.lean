/-
# Restarts

`filesys_done`, and later `filesys_init` on the device as it was left.  Every call writes what it
changes before it returns, so names and files survive.  Open handles do not, and the sectors of
a file that was removed while open stay marked.
-/

import Pintos.Filesys.Persistence
import Pintos.Filesys.Refinement

namespace Pintos.Filesys

open Base FileSys Function

variable {s s' : FileSys} {a : AbstractFs} {mallocs : ℕ → Bool} {mem : ℕ → BitVec 32}
  {stack : ℕ → BitVec 8}

theorem FileSys.Inv.restarts {held : List ℕ} {owned : Owned} {P : Places}
    (hinv : Inv P s owned held)
    (hsync : s.Synced P) (hm : ∀ n, mallocs n = true) (mem : ℕ → BitVec 32) (stack : ℕ → BitVec 8) :
    ∃ s', filesysInit false s.fsDevice mallocs mem stack = .ok s' ∧ s'.fsDevice = s.fsDevice ∧
      s'.Lucky ∧ s'.Synced P ∧ Inv P s' owned [] ∧
      ∀ f, s'.freeMapFile ≠ some f → s'.handle f = none := by
  have hcnt := hinv.layout.bitCnt
  have hmap := hinv.mapFile.2
  obtain ⟨s', hinit, hs, hcnt', hbits, _⟩ :=
    filesysInit_reads s.fsDevice mem stack hm (hinv.layout.header hmap) hcnt
      (hinv.layout.inside hmap) (hinv.layout.extent hmap).1 (hcnt ▸ hinv.map)
  obtain ⟨f, hf, hhandle⟩ := hs.mapFile
  have hslot : ∀ k, s'.slot P k = s.slot P k := fun k => by rw [slot, hs.fsDevice]; rfl
  have hnone : ∀ g, s'.freeMapFile ≠ some g → s'.handle g = none := by
    intro g hg
    rw [hhandle]
    exact update_of_ne (by rintro rfl; exact hg hf) ..
  refine ⟨s', hinit, hs.fsDevice, hs.lucky, ?_, ?_, hnone⟩
  · intro j hj
    rw [hs.fsDevice, hbits j (hcnt' ▸ hj)]
  · refine ⟨⟨?_, hs.opened hinv.layout.writable hmap, ?_⟩, ⟨⟨f, 0, hf, ?_⟩, ?_⟩, hinv.root,
      ?_, ?_, ?_⟩
    · rw [hs.fsDevice]
      refine hinv.layout.remap (hcnt'.trans hcnt.symm) fun h x hu => ?_
      rw [hbits x (hinv.layout.uses_lt hu), hsync x (hcnt ▸ hinv.layout.uses_lt hu)]
      exact hinv.layout.marked hu
    · rw [hcnt', ← hcnt]
      exact hinv.map
    · rw [hhandle]
      exact update_self ..
    · rw [hmap, mapInode_congr _ (hcnt'.trans hcnt.symm)]
    · intro g v hv hg
      rw [hnone g hg] at hv
      cases hv
    · intro k hk huse
      rw [hslot] at huse ⊢
      exact ⟨(hinv.named k hk huse).1, (hinv.named k hk huse).2.1, hs.kept _⟩
    · intro k hk l hl
      rw [hslot, hslot]
      exact hinv.distinct k hk l hl

/-- A call, or a restart. -/
def RunStep (s : FileSys) : Option (FsOp × FsResult) → FileSys → Prop
  | some e, s' => FsStep s e s'
  | none, s' => ∃ done mallocs mem stack, filesysDone.run s = .ok ((), done) ∧
      (∀ n, mallocs n = true) ∧ filesysInit false done.fsDevice mallocs mem stack = .ok s'

def AbstractFs.closeAll (a : AbstractFs) : AbstractFs := { a with handles := fun _ => none }

def AbstractFs.RunStep (a : AbstractFs) : Option (FsOp × FsResult) → AbstractFs → Prop
  | some e, a' => a.Step e a'
  | none, a' => a' = a.closeAll

lemma Refines.restart (h : Refines s a) (hs : RunStep s none s') : Refines s' a.closeAll := by
  obtain ⟨_, _, mem, stack, hdone, hm, hinit⟩ := hs
  obtain ⟨_, P, owned, sectorOf, hsync, hr⟩ := h
  obtain ⟨_, hrun, hdev⟩ := hr.inv.filesysDone_run
  obtain ⟨_, rfl⟩ := Prod.mk.inj (Except.ok.inj (hdone.symm.trans hrun))
  obtain ⟨_, hok, hsame, hl, hsync', hinv, hclosed⟩ := hr.inv.restarts hsync hm mem stack
  rw [hdev, hok] at hinit
  obtain rfl := Except.ok.inj hinit
  have hlive : ∀ {i}, a.closeAll.Live i → a.Live i := by
    rintro i (h | ⟨_, _, h⟩)
    · exact .inl h
    · cases h
  refine ⟨hl, P, owned, sectorOf, hsync', hinv, hr.names.congr fun k _ => ?_,
    ⟨fun hf => hclosed _ hf, fun _ => rfl⟩, fun hi => hr.lt (hlive hi),
    fun hi hj => hr.inj (hlive hi) (hlive hj), fun hi ho => ?_⟩
  · rw [slot, hsame]
    rfl
  · rw [hsame]
    exact hr.bytes (hlive hi) ho

theorem restart_simulation : Simulation RunStep AbstractFs.RunStep Refines where
  step := by
    intro _ _ _ e hr hs
    cases e with
    | some => exact filesys_simulation.step hr hs
    | none => exact ⟨_, rfl, hr.restart hs⟩

/-- **Files survive restarts**: the results of any calls and restarts are those of the abstract
system, in which a restart only closes the handles; a restart succeeds, whatever is in memory. -/
theorem filesys_survives_restarts {b : Block} {s₀ : FileSys} {l : List (Option (FsOp × FsResult))}
    (hm : ∀ n, mallocs n = true) (hinit : filesysInit true b mallocs mem stack = .ok s₀)
    (hl : Trace RunStep s₀ l s) :
    (∃ a, Trace AbstractFs.RunStep .empty l a ∧ Refines s a) ∧
      ∀ mallocs mem stack, (∀ n, mallocs n = true) → ∃ done s',
        filesysDone.run s = .ok ((), done) ∧
        filesysInit false done.fsDevice mallocs mem stack = .ok s' := by
  rcases filesysInit_format b mem stack hm with ⟨_, hok, hfresh, _⟩ | ⟨_, e, herr⟩
  · obtain rfl := Except.ok.inj (hinit.symm.trans hok)
    obtain ⟨a, ha, hlucky, P, _, _, hsync, hr⟩ := restart_simulation.trace hl
      ⟨hfresh.lucky, _, _, _, hfresh.synced, Represents.fresh hfresh⟩
    obtain ⟨done, hdone, hdev⟩ := hr.inv.filesysDone_run
    refine ⟨⟨a, ha, hlucky, P, _, _, hsync, hr⟩, fun mallocs mem stack hm => ?_⟩
    obtain ⟨s', hagain, _⟩ := hr.inv.restarts hsync hm mem stack
    exact ⟨done, s', hdone, hdev ▸ hagain⟩
  · rw [hinit] at herr
    cases herr

def replayRun (s : FileSys) : Option (FsOp × FsResult) → Kernel FileSys
  | some e => replay s e
  | none => do
    let (_, done) ← filesysDone.run s
    filesysInit false done.fsDevice (fun _ => true) (fun _ => 0) (fun _ => 0)

lemma replayRun_step {s s' : FileSys} {e : Option (FsOp × FsResult)} (h : replayRun s e = .ok s') :
    RunStep s e s' := by
  cases e with
  | some => exact replay_step h
  | none =>
    obtain ⟨⟨_, done⟩, hdone, h⟩ := Kernel.bind_eq_ok.1 h
    exact ⟨done, _, _, _, hdone, fun _ => rfl, h⟩

/-- What is written before a restart is read after it. -/
def restarted : List (Option (FsOp × FsResult)) :=
  [some (.filesysCreate nameA 600, .bool true), some (.filesysOpen nameA, .file (some 7)),
    some (.fileWrite 7 (fun _ => 5) 3, .count 3), none, some (.filesysOpen nameA, .file (some 4)),
    some (.fileRead 4 4, .bytes [5, 5, 5, 0]), some (.filesysRemove nameA, .bool true)]

theorem filesys_survives_restarts_session : ∃ s₀ s a,
    filesysInit true blankDevice (fun _ => true) (fun _ => 0) (fun _ => 0) = .ok s₀ ∧
    Trace RunStep s₀ restarted s ∧ Trace AbstractFs.RunStep .empty restarted a ∧ Refines s a := by
  have hrun : (do
      let s₀ ← filesysInit true blankDevice (fun _ => true) (fun _ => 0) (fun _ => 0)
      let _ ← restarted.foldlM replayRun s₀
      return true) = Except.ok true := by decide +kernel
  obtain ⟨s₀, hinit, hrun⟩ := Kernel.bind_eq_ok.1 hrun
  obtain ⟨s, hrun, _⟩ := Kernel.bind_eq_ok.1 hrun
  have hl := Trace.of_foldlM replayRun_step hrun
  obtain ⟨⟨a, ha, hr⟩, _⟩ := filesys_survives_restarts (fun _ => rfl) hinit hl
  exact ⟨s₀, s, a, hinit, hl, ha, hr⟩

end Pintos.Filesys
