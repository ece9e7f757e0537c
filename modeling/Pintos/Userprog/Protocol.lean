/-
# What every run of processes does

`System.Effect` says what one step does as far as other threads can tell: most do nothing, some take
the running thread on in a kernel function, and a few create a thread, end one, or leave a return on
record.  `System.Facts` holds in every run, whatever the processes do and however they are
scheduled.  Two facts are about the code and not its purpose: nobody ever increments a `wait_sema`,
so nobody gets past it, and nobody ever sets `load_succeeded`.
-/

import Pintos.Userprog.Process

namespace Pintos

open Base Function Kernel Option Threads System

namespace Userprog

def System.boot (palloc : Palloc) (own : List Allocation) (page idlePage idleFd : ℕ)
    (openCnt : ℕ → ℕ) : System where
  kernel := Threads.boot palloc page idlePage idleFd
  openCnt := openCnt
  own := own
  parent t := if t = 2 then some 1 else none
  reported _ := none
  loads _ := none
  execs := []
  waits := []

def takePages (palloc : Palloc) : ℕ → Kernel (List Allocation × Palloc)
  | 0 => return ([], palloc)
  | n + 1 => do
    let (own, palloc) ← takePages palloc n
    match ← pallocGetPage palloc { PAL_ASSERT := true, PAL_ZERO := true } with
    | (some pages, palloc) => return (⟨pages, 1, false⟩ :: own, palloc)
    | (none, _) => PANIC "executed an unreachable statement"

def INITIAL_PAGE : ℕ := 0xc000e000

/-- `main` to the end of `thread_start`, with `n` pages for page tables. -/
def System.start (initRamPages userPageLimit n : ℕ) : Kernel System := do
  let palloc ← pallocInit initRamPages userPageLimit (fun _ => 0) (fun _ => 0) (fun _ => 0)
  let (own, palloc) ← takePages palloc n
  match ← pallocGetPage palloc { PAL_ZERO := true } with
  | (none, _) => PANIC "thread_start: out of pages"
  | (some idlePage, palloc) =>
    match ← pallocGetMultiple palloc { PAL_ZERO := true } 2 with
    | (none, _) => PANIC "thread_start: out of pages"
    | (some idleFd, palloc) =>
      return boot palloc own INITIAL_PAGE idlePage idleFd fun _ => 0

lemma System.start_run (ram limit n : ℕ) (l : List Action) (check : System → Bool)
    {Meets : System → Action → Prop} {test : System → Action → Bool}
    (htest : ∀ s a, test s a = true → Meets s a)
    (h : (do
      let s ← start ram limit n
      let s ← s.runAll test l
      return check s) = Except.ok true) :
    ∃ palloc own idlePage idleFd s, start ram limit n =
        .ok (boot palloc own INITIAL_PAGE idlePage idleFd fun _ => 0) ∧
      Reaches Step Meets (boot palloc own INITIAL_PAGE idlePage idleFd fun _ => 0) s ∧
      check s = true := by
  obtain ⟨_, hs0, h⟩ := bind_eq_ok.1 h
  obtain ⟨s, hs, h⟩ := bind_eq_ok.1 h
  have hcheck : check s = true := Except.ok.inj h
  rw [hs0]
  simp only [start, bind_eq_ok] at hs0
  obtain ⟨palloc, _, ⟨own, palloc⟩, _, ⟨r, palloc⟩, _, hs0⟩ := hs0
  cases r with
  | none => cases hs0
  | some idlePage =>
    obtain ⟨⟨r, palloc⟩, _, hs0⟩ := bind_eq_ok.1 hs0
    cases r with
    | none => cases hs0
    | some idleFd =>
      cases hs0
      exact ⟨palloc, own, idlePage, idleFd, s, rfl, runAll_reaches htest .refl hs, hcheck⟩

/-- What holds of every thread in every state, given who created whom and what `load` returned. -/
structure ThreadFacts (parent : ℕ → Option ℕ) (loads : ℕ → Option Bool) (t : ℕ) (th : Thread) :
    Prop where
  /-- Its `wait_sema` was never incremented. -/
  waitZero : th.waitSema.value = 0
  /-- It never got past the semaphore in `process_wait`. -/
  noRest : ∀ c, th.stack ≠ .waitRest c
  /-- Its `load_succeeded` was never set. -/
  notLoaded : th.loadSucceeded = false
  children : ∀ c, c ∈ th.childList ↔ parent c = some t
  /-- In `load`, it has not come out of it. -/
  loading : ∀ params, th.stack = .load params → loads t = none
  /-- Past `load`, it knows what that returned. -/
  loaded : ∀ params b, th.stack = .loadUp params b → loads t = some b
  /-- Its `load_sema` is incremented after `load` has returned. -/
  signalled : th.loadSema.value ≠ 0 → loads t ≠ none
  /-- In `exec`, it goes on after its child's `load` has returned. -/
  read : ∀ c, th.stack = .execRead c → loads c ≠ none

structure System.Facts (s : System) : Prop where
  thread : ∀ t th, s.kernel.threads t = some th → ThreadFacts s.parent s.loads t th
  /-- Threads that do not exist yet did nothing. -/
  unborn : ∀ t, s.kernel.nextTid ≤ t → s.loads t = none
  /-- Nobody created them. -/
  orphan : ∀ t, s.kernel.nextTid ≤ t → s.parent t = none
  /-- Parents exist before their children. -/
  parents : ∀ c p, s.parent c = some p → p < s.kernel.nextTid

variable {parent : ℕ → Option ℕ} {loads : ℕ → Option Bool} {t : ℕ} {th th' : Thread} {w : Where}

lemma ThreadFacts.evolve (h : ThreadFacts parent loads t th) (he : th.Evolves th') :
    ThreadFacts parent loads t th' where
  waitZero := he.waitValue.trans h.waitZero
  noRest := he.stack ▸ h.noRest
  notLoaded := he.loadSucceeded.trans h.notLoaded
  children := he.childList ▸ h.children
  loading := he.stack ▸ h.loading
  loaded := he.stack ▸ h.loaded
  signalled := he.loadValue ▸ h.signalled
  read := he.stack ▸ h.read

structure Goes (loads : ℕ → Option Bool) (t : ℕ) (w : Where) : Prop where
  noRest : ∀ c, w ≠ .waitRest c
  loading : ∀ params, w ≠ .load params
  loaded : ∀ params b, w = .loadUp params b → loads t = some b
  read : ∀ c, w = .execRead c → loads c ≠ none

lemma ThreadFacts.goTo (h : ThreadFacts parent loads t th) (hw : Goes loads t w) :
    ThreadFacts parent loads t { th with stack := w } :=
  { hw, h with loading := fun params heq => absurd heq (hw.loading params) }

lemma ThreadFacts.update (h : ThreadFacts parent loads t th) {u : ℕ} {b : Bool} (hu : t ≠ u) :
    ThreadFacts parent (update loads u (some b)) t th where
  waitZero := h.waitZero
  noRest := h.noRest
  notLoaded := h.notLoaded
  children := h.children
  loading := fun params hst => by rw [update_of_ne hu, h.loading params hst]
  loaded := fun params b' hst => by rw [update_of_ne hu, h.loaded params b' hst]
  signalled := fun hv => by
    rw [update_of_ne hu]
    exact h.signalled hv
  read := fun c hst => by
    by_cases hc : c = u
    · simp [hc]
    · rw [update_of_ne hc]
      exact h.read c hst

namespace System

variable {s s' : System} {k : Threads} {a : Action} {function w₀ : Where} {priority : ℤ}
  {p₁ : Palloc} {page fdTable params : ℕ} {sema : Semaphore} {success : Bool}

/-! ### What a step does -/

structure SameRecord (s s' : System) : Prop where
  parent : s'.parent = s.parent
  loads : s'.loads = s.loads
  execs : s'.execs = s.execs
  waits : s'.waits = s.waits

/-- Where the running thread goes on, with nothing on record and no semaphore changed. -/
inductive Passes (s : System) (l : List ℕ) : Where → Where → Prop
  | execGetChild {tid : ℕ} : s.kernel.threads tid ≠ none →
      Passes s l (.execGetChild tid) (.execDown tid)
  | wait {c : ℕ} : c ∈ l → s.kernel.threads c ≠ none → Passes s l .run (.waitDown c)
  | start {params : ℕ} : Passes s l (.startRest params true) .run
  | fail {params : ℕ} : Passes s l (.startRest params false) .exit
  | exit : Passes s l .run .exit

/-- The running thread creates a thread that starts at `function`, and goes on at `w`. -/
structure Bears (s s' : System) (function w : Where) : Prop where
  threads : ∃ cur page priority fdTable, s.kernel.threads s.kernel.current = some cur ∧
    ∀ u, s'.kernel.threads u = if u = s.kernel.current then
        some { cur with childList := cur.childList ++ [s.kernel.nextTid], stack := w }
      else if u = s.kernel.nextTid then some (newThread page priority function fdTable)
      else s.kernel.threads u
  initialThread : s'.kernel.initialThread = s.kernel.initialThread
  nextTid : s'.kernel.nextTid = s.kernel.nextTid + 1
  parent : s'.parent = update s.parent s.kernel.nextTid (some s.kernel.current)
  loads : s'.loads = s.loads
  execs : s'.execs = s.execs
  waits : s'.waits = s.waits

/-- Where a new thread starts, and where its creator goes on. -/
inductive Starts (s : System) : Action → Where → Where → Prop
  | create {a : Action} : Starts s a .run .run
  | execute {a : Action} {params : ℕ} : Starts s a (.load params) .run
  | exec {params : ℕ} : Starts s .exec (.load params) (.execGetChild s.kernel.nextTid)

/-- **What one step does**, as far as other threads can tell. -/
inductive Effect (s : System) : Action → System → Prop
  | quiet {a : Action} {s' : System} : s.kernel.Evolves s'.kernel → s.SameRecord s' →
      Effect s a s'
  | move {a : Action} {cur : Thread} {w : Where} {s' : System} :
      s.kernel.threads s.kernel.current = some cur → s.Passes cur.childList cur.stack w →
      (s.kernel.goTo w).Evolves s'.kernel → s.SameRecord s' → Effect s a s'
  | execRead {c : ℕ} {th : Thread} {sema : Semaphore} {s' : System} :
      s.kernel.At (.execDown c) → s.kernel.threads c = some th →
      th.loadSema.value = sema.value + 1 →
      s'.kernel = (s.kernel.modify c fun th => th.setSema sema .load).goTo (.execRead c) →
      s.SameRecord s' → Effect s .go s'
  | signal {params : ℕ} {success : Bool} {cur : Thread} {sema : Semaphore} {s' : System} :
      s.kernel.At (.loadUp params success) → s.kernel.threads s.kernel.current = some cur →
      sema.value = cur.loadSema.value + 1 →
      ((s.kernel.modify s.kernel.current fun th => th.setSema sema .load).goTo
        (.startRest params success)).Evolves s'.kernel → s.SameRecord s' → Effect s .go s'
  | loaded {params : ℕ} {success : Bool} {s' : System} : s.kernel.At (.load params) →
      s'.kernel = s.kernel.goTo (.loadUp params success) → s'.parent = s.parent →
      s'.loads = update s.loads s.kernel.current (some success) → s'.execs = s.execs →
      s'.waits = s.waits → Effect s (.loaded success) s'
  | execError {s' : System} : s.kernel.Evolves s'.kernel → s'.parent = s.parent →
      s'.loads = s.loads → s'.execs = (none, TID_ERROR) :: s.execs → s'.waits = s.waits →
      Effect s .exec s'
  | execReturn {c : ℕ} {th : Thread} {s' : System} : s.kernel.At (.execRead c) →
      s.kernel.threads c = some th → s'.kernel = s.kernel.goTo .run → s'.parent = s.parent →
      s'.loads = s.loads →
      s'.execs = (some c, if th.loadSucceeded then (c : ℤ) else TID_ERROR) :: s.execs →
      s'.waits = s.waits → Effect s .go s'
  | waitReturn {tid : ℤ} {th : Thread} {s' : System} :
      s.kernel.threads s.kernel.current = some th → (∀ c ∈ th.childList, (c : ℤ) ≠ tid) →
      s'.kernel = s.kernel → s'.parent = s.parent → s'.loads = s.loads → s'.execs = s.execs →
      s'.waits = ⟨s.kernel.current, tid, s.awaits tid, -1⟩ :: s.waits → Effect s (.wait tid) s'
  | bear {a : Action} {function w : Where} {s' : System} : s.kernel.At .run →
      s.Starts a function w →
      s.Bears s' function w → Effect s a s'
  | exited {s' : System} : s.kernel.At .exit → (s.kernel.goTo .exited).Evolves s'.kernel →
      s.SameRecord s' → Effect s .go s'
  | reap {s' : System} : s.kernel.At .exit → s.kernel.current ≠ s.kernel.initialThread →
      (∀ u, s'.kernel.threads u =
        if u = s.kernel.current then none else s.kernel.threads u) →
      s'.kernel.initialThread = s.kernel.initialThread → s'.kernel.nextTid = s.kernel.nextTid →
      s.SameRecord s' → Effect s .go s'

lemma bears_of_creates (hat : s.kernel.At w)
    (h : Threads.Creates { s.kernel with palloc := p₁ } k priority function page fdTable) :
    s.Bears (s.bear k (some s.kernel.nextTid)) function w := by
  obtain ⟨cur, hcur, hthreads⟩ := h.threads
  obtain ⟨_, hth, rfl⟩ := hat
  obtain rfl := mem_unique hcur hth
  exact ⟨⟨cur, page, priority, fdTable, hcur, hthreads⟩, h.initialThread, h.nextTid, rfl, rfl,
    rfl, rfl⟩

lemma bears_of_creates_goTo
    (h : Threads.Creates { s.kernel with palloc := p₁ } k priority function page fdTable)
    (w : Where) : s.Bears (s.bear (k.goTo w) (some s.kernel.nextTid)) function w := by
  obtain ⟨cur, hcur, hthreads⟩ := h.threads
  have hcurrent : k.current = s.kernel.current := h.current
  refine ⟨⟨cur, page, priority, fdTable, hcur, fun u => ?_⟩, h.initialThread, h.nextTid, rfl, rfl,
    rfl, rfl⟩
  refine threads_goTo.trans ?_
  rw [hcurrent, hthreads, hthreads]
  by_cases hu : u = s.kernel.current
  · simp [hu]
  · simp [hu]

lemma effect_of_fails (hthreads : k.threads = s.kernel.threads)
    (hinit : k.initialThread = s.kernel.initialThread) (hnext : s.kernel.nextTid ≤ k.nextTid) :
    s.Effect a (s.bear k none) :=
  .quiet (.of_threads hthreads hnext hinit) ⟨rfl, rfl, rfl, rfl⟩

lemma effect_of_passes (hat : s.kernel.At w₀) (hp : ∀ l, s.Passes l w₀ w)
    (he : (s.kernel.goTo w).Evolves s'.kernel) (hrec : s.SameRecord s') : s.Effect a s' := by
  obtain ⟨_, hcur, rfl⟩ := hat
  exact .move hcur (hp _) he hrec

lemma Step.effect (h : s.Facts) (hs : Step s a s') : s.Effect a s' := by
  cases hs with
  | yield _ hy => exact .quiet (.of_switches (threadYield_switches hy)) ⟨rfl, rfl, rfl, rfl⟩
  | idle _ hb => exact .quiet (.of_switches (threadBlock_switches hb)) ⟨rfl, rfl, rfl, rfl⟩
  | create hat hc =>
    rcases threadCreate_eq_ok hc with ⟨rfl, hf⟩ | ⟨rfl, _, _, hc⟩
    · exact effect_of_fails hf.threads hf.initialThread hf.nextTid
    · exact .bear hat .create (bears_of_creates hat hc)
  | execute hat hx =>
    rcases processExecute_eq_ok hx with ⟨rfl, hf⟩ | ⟨rfl, _, _, _, _, _, hc⟩
    · exact effect_of_fails hf.threads hf.initialThread hf.nextTid
    · exact .bear hat .execute (bears_of_creates hat hc)
  | execError _ hx =>
    rcases processExecute_eq_ok hx with ⟨_, hf⟩ | ⟨hr, _⟩
    · exact .execError (.of_threads hf.threads hf.nextTid hf.initialThread) rfl rfl rfl rfl
    · cases hr
  | exec hat hx =>
    rcases processExecute_eq_ok hx with ⟨hr, _⟩ | ⟨hr, _, _, _, _, _, hc⟩
    · cases hr
    · cases hr
      exact .bear hat .exec (bears_of_creates_goTo hc _)
  | execGetChild hat hg =>
    obtain ⟨_, _, ⟨c, hc, htid, _, hlive⟩ | ⟨hr, _⟩⟩ := threadGetChild_eq_ok hg
    · cases hc
      obtain rfl := Int.ofNat.inj htid
      exact effect_of_passes hat (fun _ => .execGetChild hlive) (.refl _) ⟨rfl, rfl, rfl, rfl⟩
    · cases hr
  | execDown hat hd =>
    rcases execDown_eq_ok hd with he | ⟨_, _, hth, hv, rfl⟩
    · exact .quiet he ⟨rfl, rfl, rfl, rfl⟩
    · exact .execRead hat hth hv rfl ⟨rfl, rfl, rfl, rfl⟩
  | execRead hat hr =>
    obtain ⟨rfl, _, hth, rfl⟩ := execRead_eq_ok hr
    exact .execReturn hat hth rfl rfl rfl rfl rfl
  | waitNone _ hg =>
    obtain ⟨_, hth, ⟨c, hc, _⟩ | ⟨_, hno⟩⟩ := threadGetChild_eq_ok hg
    · cases hc
    · exact .waitReturn hth hno rfl rfl rfl rfl rfl
  | wait hat hg =>
    obtain ⟨_, hth, ⟨c, hc, _, hmem, hlive⟩ | ⟨hr, _⟩⟩ := threadGetChild_eq_ok hg
    · cases hc
      obtain ⟨_, hcur, hstack⟩ := hat
      obtain rfl := mem_unique hth hcur
      exact .move hth (hstack ▸ .wait hmem hlive) (.refl _) ⟨rfl, rfl, rfl, rfl⟩
    · cases hr
  | waitDown _ hd =>
    rcases waitDown_eq_ok hd with he | ⟨th, hth, hv⟩
    · exact .quiet he ⟨rfl, rfl, rfl, rfl⟩
    · exact absurd (h.thread _ th hth).waitZero hv
  | waitRest hat =>
    obtain ⟨th, hth, hstack⟩ := hat
    exact absurd hstack ((h.thread _ th hth).noRest _)
  | loaded hat => exact .loaded hat rfl rfl rfl rfl rfl
  | startUp hat hu =>
    obtain ⟨_, _, hcur, hv, he⟩ := startUp_eq_ok hu
    exact .signal hat hcur hv he ⟨rfl, rfl, rfl, rfl⟩
  | @startRest params success k hat hr =>
    obtain ⟨palloc, _, rfl⟩ := startRest_eq_ok hr
    have he : s.kernel.Evolves { s.kernel with palloc := palloc } := .of_threads rfl le_rfl rfl
    cases success with
    | false => exact effect_of_passes hat (fun _ => .fail) (he.goTo rfl) ⟨rfl, rfl, rfl, rfl⟩
    | true => exact effect_of_passes hat (fun _ => .start) (he.goTo rfl) ⟨rfl, rfl, rfl, rfl⟩
  | exit hat => exact effect_of_passes hat (fun _ => .exit) (exit_evolves _ _) ⟨rfl, rfl, rfl, rfl⟩
  | kill hat | leave hat =>
    exact effect_of_passes hat (fun _ => .exit) (.refl _) ⟨rfl, rfl, rfl, rfl⟩
  | exited hat hx =>
    obtain ⟨_, hth, hnext, hinit, _, ⟨_, hthreads⟩ | ⟨hne, _, hthreads⟩⟩ := threadExit_eq_ok hx
    · refine .exited hat (.of_threads (funext fun u => ?_) hnext.ge hinit) ⟨rfl, rfl, rfl, rfl⟩
      rw [hthreads, threads_goTo, hth, map_some]
    · exact .reap hat hne hthreads hinit hnext ⟨rfl, rfl, rfl, rfl⟩
  | get | free => exact .quiet (.of_threads rfl le_rfl rfl) ⟨rfl, rfl, rfl, rfl⟩
  | opens _ ho => exact .quiet (processAddFile_describes ho).evolves ⟨rfl, rfl, rfl, rfl⟩
  | close _ hc => exact .quiet (processCloseFile_describes hc).evolves ⟨rfl, rfl, rfl, rfl⟩

/-! ### The facts -/

lemma current_lt (hat : s.kernel.At w) : s.kernel.current < s.kernel.nextTid := by
  obtain ⟨_, hth, _⟩ := hat
  by_contra hlt
  rw [s.kernel.fresh _ (not_lt.1 hlt)] at hth
  cases hth

lemma Facts.of_threads (h : s.Facts) (hnext : s.kernel.nextTid ≤ s'.kernel.nextTid)
    (hparent : s'.parent = s.parent) (hloads : s'.loads = s.loads)
    (hthread : ∀ t th, s'.kernel.threads t = some th → ThreadFacts s.parent s.loads t th) :
    s'.Facts := by
  refine ⟨hparent ▸ hloads ▸ hthread, fun t ht => ?_, fun t ht => ?_, fun c p hc => ?_⟩
  · rw [hloads]
    exact h.unborn t (hnext.trans ht)
  · rw [hparent]
    exact h.orphan t (hnext.trans ht)
  · exact (h.parents c p (hparent ▸ hc)).trans_le hnext

lemma Facts.evolve (h : s.Facts) (he : s.kernel.Evolves s'.kernel)
    (hparent : s'.parent = s.parent) (hloads : s'.loads = s.loads) : s'.Facts := by
  refine h.of_threads he.nextTid hparent hloads fun t th' ht => ?_
  obtain ⟨th, hth, hev⟩ := he.back ht
  exact (h.thread t th hth).evolve hev

lemma Facts.move (h : s.Facts) (hw : Goes s.loads s.kernel.current w)
    (he : (s.kernel.goTo w).Evolves s'.kernel) (hparent : s'.parent = s.parent)
    (hloads : s'.loads = s.loads) : s'.Facts := by
  refine h.of_threads he.nextTid hparent hloads fun t th' ht => ?_
  obtain ⟨th, hth, hev⟩ := he.moved ht
  split_ifs at hev with htc
  · subst htc
    exact ((h.thread _ th hth).goTo hw).evolve hev
  · exact (h.thread t th hth).evolve hev

lemma Passes.goes {l : List ℕ} (hw : s.Passes l w₀ w) : Goes s.loads s.kernel.current w := by
  cases hw with
  | _ => exact ⟨by simp, by simp, by simp, by simp⟩

lemma Facts.setLoad (h : s.Facts) (hloads : s.loads t ≠ none) :
    Facts { s with kernel := s.kernel.modify t fun th => th.setSema sema .load } := by
  refine ⟨fun u th' hu => ?_, h.unborn, h.orphan, h.parents⟩
  rw [threads_modify] at hu
  split_ifs at hu with hut
  · rw [map_eq_some_iff] at hu
    obtain ⟨th, hth, rfl⟩ := hu
    have hold := h.thread t th hth
    subst hut
    exact { hold with signalled := fun _ => hloads }
  · exact h.thread u th' hu

lemma Facts.signal (h : s.Facts) (hat : s.kernel.At (.loadUp params success))
    (he : ((s.kernel.modify s.kernel.current fun th => th.setSema sema .load).goTo
      (.startRest params success)).Evolves s'.kernel) (hrec : s.SameRecord s') : s'.Facts := by
  obtain ⟨cur, hcur, hstack⟩ := hat
  have hloads := (h.thread _ cur hcur).loaded params success hstack
  have h1 : Facts { s with
      kernel := s.kernel.modify s.kernel.current fun th => th.setSema sema .load } :=
    h.setLoad (by simp [hloads])
  exact h1.move ⟨by simp, by simp, by simp, by simp⟩ he hrec.parent hrec.loads

lemma Facts.execRead (h : s.Facts) {c : ℕ} {th : Thread} (hth : s.kernel.threads c = some th)
    (hv : th.loadSema.value = sema.value + 1)
    (hk : s'.kernel = (s.kernel.modify c fun th => th.setSema sema .load).goTo (.execRead c))
    (hrec : s.SameRecord s') : s'.Facts := by
  have hloads : s.loads c ≠ none := (h.thread c th hth).signalled (by omega)
  have h1 : Facts { s with kernel := s.kernel.modify c fun th => th.setSema sema .load } :=
    h.setLoad hloads
  refine h1.move ⟨by simp, by simp, by simp, fun c' hc' => ?_⟩ (.of_eq hk) hrec.parent hrec.loads
  obtain rfl := Where.execRead.inj hc'
  exact hloads

lemma Facts.loaded (h : s.Facts) (hat : s.kernel.At (.load params))
    (hk : s'.kernel = s.kernel.goTo (.loadUp params success)) (hparent : s'.parent = s.parent)
    (hloads : s'.loads = update s.loads s.kernel.current (some success)) : s'.Facts := by
  obtain ⟨cur, hcur, hstack⟩ := hat
  have hlt := current_lt ⟨cur, hcur, hstack⟩
  refine ⟨fun t th' ht => ?_, fun t ht => ?_, fun t ht => ?_, fun c p hc => ?_⟩
  · rw [hk, threads_goTo] at ht
    rw [hparent, hloads]
    split_ifs at ht with htc
    · rw [hcur] at ht
      cases ht
      subst htc
      have hold := h.thread _ cur hcur
      refine ⟨hold.waitZero, by simp, hold.notLoaded, hold.children, by simp,
        fun params' b hst => ?_,
        fun _ => by simp, by simp⟩
      rw [update_self, (Where.loadUp.inj hst).2]
    · exact (h.thread t th' ht).update htc
  · rw [hk] at ht
    rw [hloads, update_of_ne]
    · exact h.unborn t ht
    · rintro rfl
      exact absurd ht (not_le.2 hlt)
  · rw [hk] at ht
    rw [hparent]
    exact h.orphan t ht
  · rw [hk]
    exact h.parents c p (hparent ▸ hc)

lemma Facts.bear (h : s.Facts) (hw : Goes s.loads s.kernel.current w)
    (hf : function = .run ∨ ∃ params, function = .load params) (hb : s.Bears s' function w) :
    s'.Facts := by
  obtain ⟨cur, _, _, _, hcur, hthreads⟩ := hb.threads
  have hlt := current_lt ⟨cur, hcur, rfl⟩
  -- who created whom
  have hparent : ∀ c u, s'.parent c = some u ↔
      c = s.kernel.nextTid ∧ u = s.kernel.current ∨ s.parent c = some u := by
    intro c u
    rw [hb.parent]
    by_cases hc : c = s.kernel.nextTid
    · rw [hc, update_self, h.orphan _ le_rfl]
      simp [eq_comm]
    · rw [update_of_ne hc]
      simp [hc]
  refine ⟨fun t th' ht => ?_, fun t ht => ?_, fun t ht => ?_, fun c p hc => ?_⟩
  · rw [hthreads] at ht
    rw [hb.loads]
    split_ifs at ht with htc htn
    · cases ht
      subst htc
      have hold := (h.thread _ cur hcur).goTo hw
      refine { hold with children := fun c => ?_ }
      rw [hparent, List.mem_append, List.mem_singleton, ← hold.children c]
      simp [or_comm]
    · cases ht
      have hnone := h.unborn t htn.ge
      have hstack : ∀ c, function ≠ .waitRest c ∧ function ≠ .execRead c := by
        rcases hf with rfl | ⟨params, rfl⟩ <;> simp
      refine ⟨rfl, fun c => (hstack c).1, rfl, fun c => ?_, fun _ _ => hnone,
        fun params' b hst => ?_,
        fun hv => absurd rfl hv, fun c hst => absurd hst (hstack c).2⟩
      · -- it has created nobody yet
        rw [hparent]
        refine iff_of_false List.not_mem_nil ?_
        rintro (⟨_, hcur'⟩ | hc)
        · exact htc hcur'
        · exact absurd (h.parents c t hc) (htn ▸ lt_irrefl _)
      · rcases hf with rfl | ⟨params, rfl⟩ <;> cases hst
    · have hold := h.thread t th' ht
      refine { hold with children := fun c => ?_ }
      rw [hparent, hold.children c]
      simp [htc]
  · rw [hb.loads]
    exact h.unborn t (by have := hb.nextTid; omega)
  · rw [hb.nextTid] at ht
    rw [hb.parent, update_of_ne (by omega)]
    exact h.orphan t (by omega)
  · rw [hb.nextTid]
    rcases (hparent c p).1 hc with ⟨_, rfl⟩ | hc
    · omega
    · have := h.parents c p hc
      omega

lemma Facts.step (h : s.Facts) (hs : Step s a s') : s'.Facts := by
  cases hs.effect h with
  | quiet he hrec => exact h.evolve he hrec.parent hrec.loads
  | move _ hw he hrec => exact h.move hw.goes he hrec.parent hrec.loads
  | execRead _ hth hv hk hrec => exact h.execRead hth hv hk hrec
  | signal hat _ _ he hrec => exact h.signal hat he hrec
  | loaded hat hk hparent hloads => exact h.loaded hat hk hparent hloads
  | execError he hparent hloads => exact h.evolve he hparent hloads
  | execReturn _ _ hk hparent hloads =>
    exact h.move ⟨by simp, by simp, by simp, by simp⟩ (.of_eq hk) hparent hloads
  | waitReturn _ _ hk hparent hloads => exact h.evolve (.of_eq hk) hparent hloads
  | bear _ hf hb =>
    cases hf with
    | create => exact h.bear ⟨by simp, by simp, by simp, by simp⟩ (.inl rfl) hb
    | execute | exec => exact h.bear ⟨by simp, by simp, by simp, by simp⟩ (.inr ⟨_, rfl⟩) hb
  | exited _ he hrec =>
    exact h.move ⟨by simp, by simp, by simp, by simp⟩ he hrec.parent hrec.loads
  | reap _ _ hthreads _ hnext hrec =>
    refine h.of_threads hnext.ge hrec.parent hrec.loads fun t th ht => ?_
    rw [hthreads] at ht
    split_ifs at ht
    exact h.thread t th ht

variable {palloc : Palloc} {own : List Allocation} {page idlePage idleFd : ℕ} {openCnt : ℕ → ℕ}

lemma threads_boot (ht : (boot palloc own page idlePage idleFd openCnt).kernel.threads t =
    some th) :
    t = 1 ∧ th = { newThread page PRI_DEFAULT .run 0 with
        nextFd := 0, fdTable := 0, childList := [2] } ∨
      t = 2 ∧ th = newThread idlePage PRI_MIN .idle idleFd := by
  dsimp only [boot, Threads.boot] at ht
  split_ifs at ht with h1 h2
  · exact .inl ⟨h1, (some.inj ht).symm⟩
  · exact .inr ⟨h2, (some.inj ht).symm⟩

lemma boot_facts : (boot palloc own page idlePage idleFd openCnt).Facts := by
  have hparent : ∀ c p, (boot palloc own page idlePage idleFd openCnt).parent c = some p ↔
      c = 2 ∧ p = 1 := by
    intro c p
    dsimp only [boot]
    split_ifs with hc
    · simp [hc, eq_comm]
    · simp [hc]
  refine ⟨fun t th ht => ?_, fun t _ => rfl, fun t ht => ?_, fun c p hc => ?_⟩
  · rcases threads_boot ht with ⟨rfl, rfl⟩ | ⟨rfl, rfl⟩
    all_goals
      refine ⟨rfl, by simp [newThread], rfl, fun c => ?_, by simp [newThread],
        by simp [newThread], fun hv => absurd rfl hv, by simp [newThread]⟩
      rw [hparent]
      simp [Threads.newThread]
  · have hne : t ≠ 2 := fun h2 => absurd (h2 ▸ ht) (by decide : ¬ 3 ≤ 2)
    exact if_neg hne
  · rw [((hparent c p).1 hc).2]
    exact (by decide : 1 < 3)

lemma boot_running : (boot palloc own page idlePage idleFd openCnt).kernel.Running :=
  ⟨rfl, some_ne_none _⟩

end System
end Userprog
end Pintos
