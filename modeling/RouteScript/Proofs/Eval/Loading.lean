import Mathlib.Data.List.Dedup
import Mathlib.Data.List.Perm.Subperm
import RouteScript.Proofs.Eval.Coupling

/-!
# Loading scripts

The statements of a script run by loading it at most once, with the directory of the script as the
one that counts, and scripts that load each other are not deeper inside each other than there are
files. Whether a script has run is told by a record that every start of its statements adds to, and
not by the scripts that count as loaded, which decide whether to start it. An evaluator with a gate
runs a script only if all that is the case and sounds an alarm otherwise. It does the same as the
evaluator without a gate, for all programs that one interpreter runs one after the other and for all
their tasks.

## Main definitions

* `Loading`: how stores may change while scripts are loaded.
* `Evaluator.gated`: the evaluator with a gate before the statements of scripts.
* `Evaluator.startsOnce`: the gate for scripts that have not run before.
-/

namespace RouteScript

/-! ## Files -/

namespace FileTree

def holdsFile (t : FileTree) (place : List String) : Bool :=
  match t.node? place with
  | some (.text _) | some .binary => true
  | _ => false

def filePlaces (t : FileTree) : List (List String) :=
  (t.nodes.map (·.1)).dedup.filter t.holdsFile

variable {t : FileTree}

/-- The listed places are those that hold files. -/
theorem mem_filePlaces {place : List String} : place ∈ t.filePlaces ↔ t.holdsFile place := by
  simp only [filePlaces, List.mem_filter, List.mem_dedup, and_iff_right_iff_imp]
  intro h
  unfold holdsFile node? at h
  cases hfound : t.nodes.find? (·.1 == place) with
  | none =>
    rw [hfound] at h
    split at h <;> rename_i hnode <;> split at hnode <;> simp_all
  | some node =>
    have hplace := List.find?_some hfound
    exact List.mem_map.mpr ⟨node, List.mem_of_find?_eq_some hfound, by simpa using hplace⟩

/-- There are not more different places with files than files. -/
theorem length_le_filePlaces {places : List (List String)} (hnodup : places.Nodup)
    (h : ∀ place ∈ places, t.holdsFile place) : places.length ≤ t.filePlaces.length :=
  (List.subperm_of_subset hnodup fun place hplace => mem_filePlaces.mpr (h place hplace)).length_le

theorem holdsFile_of_isFile {directory place : List String} {path : String}
    (h : t.isFile directory path) (hplace : t.resolve directory path = .ok place) :
    t.holdsFile place := by
  rw [isFile, hplace] at h
  exact h

end FileTree

/-- A script is found only where there is a file. -/
theorem Evaluator.holdsFile_of_locate? {path : String} {t : Task} {s : Store} {place : List String}
    (h : locate? path t s = some place) : s.files.holdsFile place := by
  unfold locate? at h
  dsimp only at h
  split at h
  · cases h
  · rename_i candidate hfound
    have hfile := List.find?_some hfound
    cases hresolve : s.files.resolve s.directory candidate with
    | error problem => simp [hresolve, Except.toOption] at h
    | ok found =>
      simp only [hresolve, Except.toOption, Option.some.injEq] at h
      subst h
      exact FileTree.holdsFile_of_isFile hfile hresolve

/-! ## Stores -/

namespace Store

/-- Every script that has been loaded is a file, and none has been loaded twice. -/
structure LoadsFiles (s : Store) : Prop where
  nodup : s.loaded.Nodup
  files : ∀ place ∈ s.loaded, s.files.holdsFile place

/-- More scripts may have been loaded, but files and the working directory are the same. -/
structure Loads (s s' : Store) : Prop where
  files : s'.files = s.files
  directory : s'.directory = s.directory
  loaded : s.loaded <:+ s'.loaded
  keeps : s.LoadsFiles → s'.LoadsFiles

/-- Noting a new file as loaded is growth that counts. -/
theorem loads_of_new {s : Store} {place : List String} (hfile : s.files.holdsFile place)
    (hnew : place ∉ s.loaded) : s.Loads { s with loaded := place :: s.loaded } where
  files := rfl
  directory := rfl
  loaded := List.suffix_cons place s.loaded
  keeps h := ⟨List.nodup_cons.mpr ⟨hnew, h.nodup⟩, by simpa [hfile] using h.files⟩

/-- Scripts that have run count as loaded, and none has run twice. -/
structure RunsOnce (s : Store) : Prop where
  nodup : s.executed.Nodup
  loaded : ∀ place ∈ s.executed, place ∈ s.loaded

/-- Noting a place as loaded starts nothing. -/
theorem RunsOnce.note {s : Store} (h : s.RunsOnce) (place : List String) :
    RunsOnce { s with loaded := place :: s.loaded } :=
  ⟨h.nodup, fun other hother => List.mem_cons_of_mem place (h.loaded other hother)⟩

/-- A script that is started right after it was first noted has not been started before. -/
theorem RunsOnce.start {s : Store} (h : s.RunsOnce) {place : List String}
    (hnew : place ∉ s.loaded) :
    RunsOnce (Store.start place { s with loaded := place :: s.loaded }) where
  nodup := List.nodup_cons.mpr ⟨fun hmem => hnew (h.loaded place hmem), h.nodup⟩
  loaded := List.forall_mem_cons.mpr ⟨List.mem_cons_self, (h.note place).loaded⟩

end Store

/-- How stores may change while scripts are loaded, and what holds of all of them. -/
structure Loading extends Growth where
  store : Store → Prop
  keeps {s s' : Store} : store s → rel s s' → store s'
  loads {s s' : Store} : rel s s' → s.Loads s'
  note {s : Store} {place : List String} : s.files.holdsFile place → place ∉ s.loaded →
    rel s { s with loaded := place :: s.loaded }
  start {s : Store} {place : List String} : s.files.holdsFile place → place ∉ s.loaded →
    rel s (Store.start place { s with loaded := place :: s.loaded })

namespace Loading

def ofFiles : Loading where
  rel := Store.Loads
  trans h h' := ⟨h'.files.trans h.files, h'.directory.trans h.directory, h.loaded.trans h'.loaded,
    fun hs => h'.keeps (h.keeps hs)⟩
  same h := {
    files := h.files
    directory := h.directory
    loaded := h.loaded ▸ List.suffix_rfl
    keeps hs := ⟨by rw [h.loaded]; exact hs.nodup, by rw [h.loaded, h.files]; exact hs.files⟩ }
  store := Store.LoadsFiles
  keeps hs h := h.keeps hs
  loads h := h
  note := Store.loads_of_new
  start hfile hnew := { Store.loads_of_new hfile hnew with
    keeps hs := { (Store.loads_of_new hfile hnew).keeps hs with } }

/-- Files are loaded, and each of them runs at most once. -/
def once : Loading where
  rel s s' := s.Loads s' ∧ (s.RunsOnce → s'.RunsOnce)
  trans h h' := ⟨ofFiles.trans h.1 h'.1, h'.2 ∘ h.2⟩
  same h := ⟨ofFiles.same h, fun hs => ⟨by rw [h.executed]; exact hs.nodup,
    by rw [h.executed, h.loaded]; exact hs.loaded⟩⟩
  store s := s.LoadsFiles ∧ s.RunsOnce
  keeps hs h := ⟨h.1.keeps hs.1, h.2 hs.2⟩
  loads h := h.1
  note hfile hnew := ⟨Store.loads_of_new hfile hnew, fun hs => hs.note _⟩
  start hfile hnew := ⟨ofFiles.start hfile hnew, fun hs => hs.start hnew⟩

end Loading

/-! ## Evaluation with a gate -/

namespace Evaluator

/-- Whether the statements of a script may be started, from the scripts that are being loaded, the
place of the script, the task and the store. -/
abbrev Gate := List (List String) → List String → Task → Store → Bool

/-- The script has not run before, its directory counts, and the scripts that are being loaded
already are fewer than the files. -/
def startsOnce : Gate := fun opened place t s =>
  place ∉ s.executed ∧ t.directory = some (Path.ofNames place.dropLast) ∧
    opened.length < s.files.filePlaces.length

/-- The statements of the script at a place, if they may be started. -/
def admitted? (gate : Gate) (opened : List (List String)) (place : List String) (t : Task)
    (s : Store) : Option Block :=
  if gate opened place t s then (readScript "" place s).toOption else none

/-- Carry out a job by its rule while some scripts are being loaded. The statements of a script are
started only if the gate lets them, and they are those of the file at its place. -/
def stepGated (gate : Gate) (alarm : Job → Script Value)
    (inside : List (List String) → Evaluator) (opened : List (List String)) : Job → Script Value
  | .load place body => fun t s =>
    match admitted? gate opened place t s with
    | some body => step (inside (place :: opened)) (.load place body) t s
    | none => alarm (.load place body) t s
  | .expr e => step (inside opened) (.expr e)
  | .block body => step (inside opened) (.block body)
  | .call callee args => step (inside opened) (.call callee args)

/-- Carry out a job with at most `levels` jobs inside each other, every script behind the gate. -/
def performGated (host : HostHandler) (gate : Gate) (alarm : Job → Script Value) :
    Nat → List (List String) → Job → Script Value
  | 0, _ => fun _ => Script.starve
  | levels + 1, opened =>
    stepGated gate alarm (fun opened => ⟨performGated host gate alarm levels opened, levels, host⟩)
      opened

/-- The evaluator with a gate before the statements of scripts, and an alarm. -/
def gated (host : HostHandler) (gate : Gate) (alarm : Job → Script Value) (levels : Nat)
    (opened : List (List String)) : Evaluator :=
  ⟨performGated host gate alarm levels opened, levels, host⟩

variable {host : HostHandler} {gate : Gate} {alarm : Job → Script Value} {levels : Nat}
  {opened : List (List String)}

/-- The gate stands before scripts only. -/
theorem gated_run {job : Job} (h : job.isLoad = false) :
    (gated host gate alarm (levels + 1) opened).run job =
      step (gated host gate alarm levels opened) job := by
  cases job with
  | load place body => cases h
  | _ => rfl

/-- A script that the gate admits is carried out with its place among the open ones. -/
theorem gated_run_load {place : List String} {body body' : Block} {t : Task} {s : Store}
    (h : admitted? gate opened place t s = some body) :
    (gated host gate alarm (levels + 1) opened).run (.load place body') t s =
      step (gated host gate alarm levels (place :: opened)) (.load place body) t s := by
  simp only [gated, performGated, stepGated, h]

/-- The statements of a script are recorded when they are started. -/
theorem step_load (ev : Evaluator) (place : List String) (body : Block) (t : Task) (s : Store) :
    step ev (.load place body) t s =
      (ev.script body >>= fun result => pure result.1 : Script Value) t (s.start place) :=
  rfl

/-! ## Coupling -/

def loadingCoupling (L : Loading) (directory : Option String) (opened : List (List String)) :
    Coupling .free where
  growth := L.toGrowth
  store s := L.store s ∧ ∀ place ∈ opened, place ∈ s.loaded
  tasks t t' := t' = t ∧ t.directory = directory
  keeps hs h := ⟨L.keeps hs.1 h, fun place hplace => (L.loads h).loaded.subset (hs.2 place hplace)⟩

/-- A script that counts as loaded for the first time passes the gate. -/
def Gate.Opens (gate : Gate) (L : Loading) : Prop :=
  ∀ (opened : List (List String)) (place : List String) (t : Task) (s : Store), opened.Nodup →
    (∀ other ∈ opened, other ∈ s.loaded) → s.files.holdsFile place → place ∉ s.loaded → L.store s →
    gate opened place { t with directory := some (Path.ofNames place.dropLast) }
      { s with loaded := place :: s.loaded }

/-- The gate that asks for a first start opens for every script of a store in order. -/
theorem opens_startsOnce : startsOnce.Opens .once := by
  intro opened place t s hopened hsubset hfile hnew hs
  have hrun : place ∉ s.executed := fun hmem => hnew (hs.2.loaded place hmem)
  have hnodup : (place :: opened).Nodup :=
    List.nodup_cons.mpr ⟨fun h => hnew (hsubset place h), hopened⟩
  have hdepth : opened.length < s.files.filePlaces.length := by
    refine FileTree.length_le_filePlaces hnodup ?_
    rw [List.forall_mem_cons]
    exact ⟨hfile, fun other h => hs.1.files other (hsubset other h)⟩
  simp [startsOnce, hrun, hdepth]

def loadingReach : Reach .free where
  job job := job.isLoad = false
  builds _ := True
  atHome := True
  starts := False
  initial _ _ _ _ _ _ := rfl

theorem loadingReach_covers {job : Job} (h : job.isLoad = false) : loadingReach.Covers job where
  obeys := job.obeys_free
  home _ := trivial
  starts hload := by simp [h] at hload
  parts part hpart := by
    obtain ⟨_, -, hlast⟩ := Relation.TransGen.tail'_iff.mp hpart
    obtain ⟨_, rfl⟩ | ⟨_, rfl⟩ := Job.eq_of_hasPart hlast <;> rfl
  builds _ _ := trivial
  back _ _ _ := rfl

/-- The statements of a loaded script flow without any restriction. -/
theorem flow_statementsOf (body : Block) :
    Flow .free loadingReach (fun ev => ev.script body >>= fun result => pure result.1)
      (Value.Obeys .free) := by
  have h : loadingReach.Covers (.block body) := loadingReach_covers rfl
  refine .bind (flow_script (.of_parts h.obeys h.home fun part hpart => ?_)) fun _ hv => .pure hv
  exact h.parts part (.single hpart)

variable {L : Loading}

theorem loadingCoupling_fits (directory : Option String) (opened : List (List String)) :
    (loadingCoupling L directory opened).Fits loadingReach where
  alike := by
    rintro t _ ⟨rfl, -⟩
    exact ⟨rfl, rfl, rfl, fun _ => rfl⟩
  set := by
    rintro t _ - ⟨rfl, h⟩ name v
    exact ⟨rfl, h⟩
  declare := by
    rintro t _ - ⟨rfl, h⟩ name v tag
    exact ⟨rfl, h⟩
  start h := h.elim

/-- Calls are coupled if blocks are. -/
theorem starts_of_run {directory : Option String} {ev ev' : Evaluator}
    (hrun : ∀ {job}, loadingReach.job job →
      (loadingCoupling L directory opened).Relates loadingReach.Admits (Value.Obeys .free)
        (ev.run job) (ev'.run job))
    (hload : ∀ path, (loadingCoupling L directory opened).Relates loadingReach.Admits
      (fun _ => True) (ev.load path) (ev'.load path)) :
    (loadingCoupling L directory opened).Starts loadingReach ev ev' where
  run := hrun
  invoke _ hargs hthis := by
    refine .invokeFunction hargs hthis (by rintro t _ ⟨rfl, -⟩; rfl) ?_
    rintro t _ ⟨rfl, hdirectory⟩
    refine ⟨(loadingCoupling L directory opened).tasks, ⟨rfl, hdirectory⟩, ?_, ?_, fun body _ => ?_⟩
    · rintro u _ ⟨rfl, h⟩ name v tag
      exact ⟨rfl, h⟩
    · rintro u _ ⟨rfl, h⟩
      exact ⟨rfl, h⟩
    · have hjob : loadingReach.job (.block body) := rfl
      exact (hrun hjob).mono (fun _ h => h.1) fun _ h => h
  load path _ := hload path

/-- With a number of levels, the gate makes no difference to what rules start. -/
def StartsAlike (L : Loading) (host : HostHandler) (gate : Gate) (alarm : Job → Script Value)
    (levels : Nat) : Prop :=
  ∀ directory opened, opened.Nodup → (loadingCoupling L directory opened).Starts loadingReach
    (withLevels host levels) (gated host gate alarm levels opened)

variable (hhost : host.Flows .free) (hgate : gate.Opens L) (alarm : Job → Script Value)

include hhost

/-- A rule does the same behind the gate if the scripts it loads do. -/
theorem relates_of_startsAlike (h : StartsAlike L host gate alarm levels)
    (directory : Option String) (hopened : opened.Nodup) {α : Type} {f : Evaluator → Script α}
    {Q : α → Prop} (hf : Flow .free loadingReach f Q) :
    (loadingCoupling L directory opened).Relates loadingReach.Admits Q
      (f (withLevels host levels)) (f (gated host gate alarm levels opened)) :=
  have hC := loadingCoupling_fits directory opened
  hf.relates hC (h directory opened hopened) rfl
    (hhost.relates hC (fun _ _ _ _ => rfl) (h directory opened hopened))

include hgate

/-- A script that is loaded for the first time may be run. -/
theorem load_relates (h : ∀ n, levels = n + 1 → StartsAlike L host gate alarm n)
    (directory : Option String) (hopened : opened.Nodup) (path : String) :
    (loadingCoupling L directory opened).Relates loadingReach.Admits (fun _ => True)
      ((withLevels host levels).load path) ((gated host gate alarm levels opened).load path) := by
  refine .load path (by rintro t _ ⟨rfl, -⟩; rfl)
    (fun t s place hplace hnew => L.note (holdsFile_of_locate? hplace) hnew) ?_
  rintro _ t s place body ⟨rfl, hdirectory⟩ - - ⟨hs, hsubset⟩ hplace hnew hbody
  have hfile := holdsFile_of_locate? hplace
  cases levels with
  | zero => exact .finished (L.note hfile hnew) (Store.obeys_free _) trivial
  | succ levels =>
    have hread : readScript "" place { s with loaded := place :: s.loaded } = .ok body :=
      readScript_eq_ok_iff.mpr (readScript_eq_ok_iff.mp hbody)
    have hadmitted : admitted? gate opened place
        { t with directory := some (Path.ofNames place.dropLast) }
        { s with loaded := place :: s.loaded } = some body := by
      rw [admitted?, if_pos (hgate opened place t s hopened hsubset hfile hnew hs), hread]
      rfl
    have hopened' : (place :: opened).Nodup :=
      List.nodup_cons.mpr ⟨fun h => hnew (hsubset place h), hopened⟩
    have hstarted := L.start hfile hnew
    have hstore : (loadingCoupling L directory (place :: opened)).store
        (Store.start place { s with loaded := place :: s.loaded }) :=
      ⟨L.keeps hs hstarted, by simpa [Store.start] using fun other hother => .inr (hsubset other hother)⟩
    have hscript := relates_of_startsAlike hhost alarm (h levels rfl)
      (some (Path.ofNames place.dropLast)) hopened' (flow_statementsOf body)
    have hcoupled := hscript { t with directory := some (Path.ofNames place.dropLast) } _ _
      ⟨rfl, rfl⟩ (Task.obeys_free _) (Store.obeys_free _) hstore
    rw [gated_run_load hadmitted, step_load]
    -- the script may change the directory that counts, but it is put back
    refine (Run.Coupled.mono hcoupled fun o u u' h => h.imp ?_).since hstarted
    rintro ⟨rfl, -⟩
    exact ⟨rfl, hdirectory⟩

/-- Loading a script does the same behind the gate. The induction is on the levels. -/
theorem startsAlike (levels : Nat) : StartsAlike L host gate alarm levels := by
  induction levels with
  | zero =>
    intro directory opened hopened
    refine starts_of_run (fun _ => .starve) fun path => ?_
    exact load_relates hhost hgate alarm (fun n hn => by omega) directory hopened path
  | succ levels ih =>
    intro directory opened hopened
    refine starts_of_run (fun {job} hjob => ?_) fun path => ?_
    · rw [gated_run hjob]
      exact relates_of_startsAlike hhost alarm ih directory hopened
        (flow_step (loadingReach_covers hjob))
    · refine load_relates hhost hgate alarm (fun n hn => ?_) directory hopened path
      obtain rfl : levels = n := by omega
      exact ih

/-- So every rule does the same behind the gate. -/
theorem relates_gated (levels : Nat) (directory : Option String) {α : Type}
    {f : Evaluator → Script α} {Q : α → Prop} (hf : Flow .free loadingReach f Q) :
    (loadingCoupling L directory []).Relates loadingReach.Admits Q (f (withLevels host levels))
      (f (gated host gate alarm levels [])) :=
  relates_of_startsAlike hhost alarm (startsAlike hhost hgate alarm levels) directory
    List.nodup_nil hf

end Evaluator

/-! ## Schedules -/

/-- The runs do the same and, unless they are given up, end with the same task in a directory. -/
abbrev Run.EndsSame {α : Type} (L : Loading) (directory : Option String) (s : Store)
    (r r' : Run α) : Prop :=
  r.Coupled .free L.toGrowth (fun o t t' => o ≠ .starved → t' = t ∧ t.directory = directory) s r'

/-- The runs do the same and, unless they are given up, end with the same task. -/
abbrev Run.DoesSame {α : Type} (L : Loading) (s : Store) (r r' : Run α) : Prop :=
  r.Coupled .free L.toGrowth (fun o t t' => o ≠ .starved → t' = t) s r'

inductive Sleeper.DoesSame (L : Loading) (s : Store) : Sleeper → Sleeper → Prop
  | mk (future : Nat) {r : Request} {resume resume' : r.Reply → Store → Run Value}
    (h : ∀ reply s', L.rel s s' → (resume reply s').DoesSame L s' (resume' reply s')) :
    DoesSame L s ⟨future, r, resume⟩ ⟨future, r, resume'⟩

theorem Sleeper.DoesSame.mono {L : Loading} {s s' : Store} (hs : L.rel s s') {a b : Sleeper}
    (h : a.DoesSame L s b) : a.DoesSame L s' b := by
  obtain ⟨future, h⟩ := h
  exact ⟨future, fun reply s'' hs' => h reply s'' (L.trans hs hs')⟩

abbrev PoolsDoSame (L : Loading) (s : Store) (pool pool' : List Sleeper) : Prop :=
  List.Forall₂ (Sleeper.DoesSame L s) pool pool'

namespace Sleeper

variable {L : Loading} {s : Store} {pool pool' : List Sleeper}

theorem poolsDoSame_mono {s' : Store} (hs : L.rel s s') (h : PoolsDoSame L s pool pool') :
    PoolsDoSame L s' pool pool' :=
  h.imp fun _ _ => .mono hs

/-- Pools wake the same task. -/
theorem wakeFirst?_doesSame (h : PoolsDoSame L s pool pool') :
    (wakeFirst? s pool = none ∧ wakeFirst? s pool' = none) ∨
      ∃ future run run' rest rest', wakeFirst? s pool = some (future, run, rest) ∧
        wakeFirst? s pool' = some (future, run', rest') ∧ Run.DoesSame L s run run' ∧
        PoolsDoSame L s rest rest' := by
  induction h with
  | nil => exact .inl ⟨rfl, rfl⟩
  | @cons a b pool pool' hab hrest ih =>
    obtain @⟨future, r, resume, resume', h⟩ := hab
    cases hattempt : r.attempt? s with
    | some found =>
      obtain ⟨reply, s'⟩ := found
      have hs' : L.rel s s' := L.same (Request.sameFiles_of_attempt? hattempt)
      refine .inr ⟨future, resume reply s', resume' reply s', pool, pool', ?_, ?_,
        (h reply s' hs').since hs', hrest⟩
      · simp only [wakeFirst?, wake?, hattempt, Option.map_some]
      · simp only [wakeFirst?, wake?, hattempt, Option.map_some]
    | none =>
      obtain ⟨hnone, hnone'⟩ | ⟨other, run, run', rest, rest', hsome, hsome', hrun, hpools⟩ := ih
      · left
        simp [wakeFirst?, wake?, hattempt, hnone, hnone']
      · right
        refine ⟨other, run, run', _, _, ?_, ?_, hrun, .cons ⟨future, h⟩ hpools⟩
        · simp [wakeFirst?, wake?, hattempt, hsome]
        · simp [wakeFirst?, wake?, hattempt, hsome']

/-- A task that has run to its next wait or its end leaves pools that do the same. -/
theorem note_doesSame (future : Nat) {run run' : Run Value} (hrun : run.DoesSame L s run')
    (h : PoolsDoSame L s pool pool') :
    ∃ s' rest rest', note future pool run = (rest, s') ∧ note future pool' run' = (rest', s') ∧
      L.rel s s' ∧ PoolsDoSame L s' rest rest' := by
  have hsettled {s' : Store} (hs : L.rel s s') (outcome : Except Signal Value) :
      L.rel s (s'.settleFuture future outcome) :=
    L.trans hs (L.same ⟨rfl, rfl, rfl, rfl⟩)
  cases hrun with
  | @finished o t t' s₀ s' hgrows =>
    cases o with
    | value v =>
      have hloads := hsettled hgrows (.ok v)
      exact ⟨_, _, _, rfl, rfl, hloads, poolsDoSame_mono hloads h⟩
    | signal x =>
      have hloads := hsettled hgrows (.error x)
      exact ⟨_, _, _, rfl, rfl, hloads, poolsDoSame_mono hloads h⟩
    | starved => exact ⟨_, _, _, rfl, rfl, hgrows, poolsDoSame_mono hgrows h⟩
  | waiting hgrows _ hresume =>
    refine ⟨_, _, _, rfl, rfl, hgrows, List.rel_append (poolsDoSame_mono hgrows h) ?_⟩
    refine .cons ⟨future, fun reply s' hs' => ?_⟩ .nil
    exact hresume reply s' hs' (Store.obeys_free s') (Request.brings_free _ reply)

end Sleeper

/-- The ends of schedules are the same, the tasks that still wait apart, which go on in the same
way. -/
inductive SettlesSame {α : Type} (L : Loading) (directory : Option String) (s : Store) :
    Option (Settled α) → Option (Settled α) → Prop
  | none : SettlesSame L directory s none none
  | some {outcome : Except Signal α} {t : Task} {s' : Store} {pool pool' : List Sleeper} :
    t.directory = directory → L.rel s s' → PoolsDoSame L s' pool pool' →
    SettlesSame L directory s (some ⟨outcome, t, s', pool⟩) (some ⟨outcome, t, s', pool'⟩)

theorem SettlesSame.since {α : Type} {L : Loading} {directory : Option String} {s s' : Store}
    (hs : L.rel s s') {settled settled' : Option (Settled α)} (h : SettlesSame L directory s' settled settled') :
    SettlesSame L directory s settled settled' := by
  cases h with
  | none => exact .none
  | some hdirectory hs' hpools => exact .some hdirectory (L.trans hs hs') hpools

def Evaluator.WorksSame (L : Loading) (ev ev' : Evaluator) : Prop :=
  ∀ work t s, L.store s → (ev.work work t s).DoesSame L s (ev'.work work t s)

namespace Evaluator.WorksSame

variable {L : Loading} {ev ev' : Evaluator} (hwork : WorksSame L ev ev') {s : Store}
  {pool pool' : List Sleeper}

include hwork

/-- A turn of the other tasks does the same in both pools. -/
theorem background? (hs : L.store s) (h : PoolsDoSame L s pool pool') :
    (ev.background? pool s = none ∧ ev'.background? pool' s = none) ∨
      ∃ s' rest rest', ev.background? pool s = some (rest, s') ∧
        ev'.background? pool' s = some (rest', s') ∧ L.rel s s' ∧ PoolsDoSame L s' rest rest' := by
  obtain ⟨hnone, hnone'⟩ | ⟨future, run, run', rest, rest', hsome, hsome', hrun, hrest⟩ :=
    Sleeper.wakeFirst?_doesSame h
  · simp only [Evaluator.background?, hnone, hnone']
    cases hspawned : s.spawned with
    | nil => exact .inl ⟨rfl, rfl⟩
    | cons job later =>
      have hstarted : L.rel s { s with spawned := later } := L.same ⟨rfl, rfl, rfl, rfl⟩
      have hrun := hwork job.work job.task { s with spawned := later } (L.keeps hs hstarted)
      obtain ⟨s', rest, rest', hnote, hnote', hgrows, hrest⟩ :=
        Sleeper.note_doesSame job.future hrun (Sleeper.poolsDoSame_mono hstarted h)
      exact .inr ⟨s', rest, rest', by rw [← hnote], by rw [← hnote'],
        L.trans hstarted hgrows, hrest⟩
  · simp only [Evaluator.background?, hsome, hsome']
    obtain ⟨s', rest, rest', hnote, hnote', hgrows, hrest⟩ :=
      Sleeper.note_doesSame future hrun hrest
    exact .inr ⟨s', rest, rest', by rw [← hnote], by rw [← hnote'], hgrows, hrest⟩

omit hwork in
theorem settle?_finished {α : Type} {directory : Option String} (turns : Nat) {o : Outcome α}
    {t t' : Task} {s' : Store} (htask : o ≠ .starved → t' = t ∧ t.directory = directory)
    (hs : L.rel s s') (h : PoolsDoSame L s pool pool') :
    SettlesSame L directory s (ev.settle? turns pool (.finished o t s'))
      (ev'.settle? turns pool' (.finished o t' s')) := by
  have hpools := Sleeper.poolsDoSame_mono hs h
  cases o with
  | value a =>
    obtain ⟨rfl, hdirectory⟩ := htask (by simp)
    simp only [Evaluator.settle?]
    exact .some hdirectory hs hpools
  | signal x =>
    obtain ⟨rfl, hdirectory⟩ := htask (by simp)
    simp only [Evaluator.settle?]
    exact .some hdirectory hs hpools
  | starved =>
    simp only [Evaluator.settle?]
    exact .none

/-- Schedules come to the same end, if they come to an end. -/
theorem settle? {α : Type} {directory : Option String} (turns : Nat) {run run' : Run α}
    (hs : L.store s) (hrun : run.EndsSame L directory s run') (h : PoolsDoSame L s pool pool') :
    SettlesSame L directory s (ev.settle? turns pool run) (ev'.settle? turns pool' run') := by
  induction turns generalizing s pool pool' run run' with
  | zero =>
    cases hrun with
    | finished hgrows _ htask => exact settle?_finished 0 htask hgrows h
    | waiting => exact .none
  | succ turns ih =>
    cases hrun with
    | finished hgrows _ htask => exact settle?_finished (turns + 1) htask hgrows h
    | @waiting r s₀ s' resume resume' hgrows _ hresume =>
      have hresume (reply : r.Reply) (s'' : Store) (hs'' : L.rel s' s'') :
          (resume reply s'').EndsSame L directory s'' (resume' reply s'') :=
        hresume reply s'' hs'' (Store.obeys_free s'') (Request.brings_free r reply)
      have hs' := L.keeps hs hgrows
      have hpools := Sleeper.poolsDoSame_mono hgrows h
      cases hattempt : r.attempt? s' with
      | some found =>
        obtain ⟨reply, s''⟩ := found
        have hs'' : L.rel s' s'' := L.same (Request.sameFiles_of_attempt? hattempt)
        simp only [Evaluator.settle?, hattempt]
        exact (ih (L.keeps hs' hs'') (hresume reply s'' hs'')
          (Sleeper.poolsDoSame_mono hs'' hpools)).since (L.trans hgrows hs'')
      | none =>
        obtain ⟨hnone, hnone'⟩ | ⟨s'', rest, rest', hsome, hsome', hs'', hrest⟩ :=
          hwork.background? hs' hpools
        · simp only [Evaluator.settle?, hattempt, hnone, hnone']
          exact .none
        · simp only [Evaluator.settle?, hattempt, hsome, hsome']
          have hwaiting :
              (Run.waiting r s'' resume).EndsSame L directory s'' (.waiting r s'' resume') :=
            .waiting (L.refl s'') (Store.obeys_free s'') fun reply s₁ hs₁ _ _ =>
              hresume reply s₁ (L.trans hs'' hs₁)
          exact (ih (L.keeps hs' hs'') hwaiting hrest).since (L.trans hgrows hs'')

end Evaluator.WorksSame

/-! ## Sessions -/

/-- Two evaluators do the same for programs and for the work of new tasks. -/
structure Evaluator.RunsSame (L : Loading) (ev ev' : Evaluator) : Prop where
  work : WorksSame L ev ev'
  program : ∀ p t s, L.store s → (ev.program p t s).EndsSame L t.directory s (ev'.program p t s)

namespace Interpreter

def executeBy (ev : Evaluator) (p : Program) (i : Interpreter) : Report × Interpreter :=
  match ev.settle? i.levels i.pool (ev.program p i.task i.store) with
  | some settled =>
    (.ofOutcome settled.outcome,
      { i with task := settled.task, store := settled.store, pool := settled.pool })
  | none => (.unfinished, i)

theorem executeBy_evaluator (i : Interpreter) (p : Program) :
    i.executeBy i.evaluator p = i.execute p := by
  unfold executeBy execute run run?
  cases i.evaluator.settle? i.levels i.pool (i.evaluator.program p i.task i.store) <;> rfl

theorem evaluator_executeBy (ev : Evaluator) (i : Interpreter) (p : Program) :
    (i.executeBy ev p).2.evaluator = i.evaluator := by
  unfold executeBy
  split <;> rfl

/-- Run programs one after the other. -/
def session (execute : Program → Interpreter → Report × Interpreter) :
    List Program → Interpreter → List Report × Interpreter
  | [], i => ([], i)
  | p :: rest, i =>
    let (report, i) := execute p i
    let (reports, i) := i.session execute rest
    (report :: reports, i)

/-- An interpreter has one evaluator for all programs. -/
theorem session_execute (i : Interpreter) (ps : List Program) :
    i.session execute ps = i.session (executeBy i.evaluator) ps := by
  generalize hev : i.evaluator = ev
  induction ps generalizing i with
  | nil => rfl
  | cons p rest ih =>
    subst hev
    simp only [session, ← executeBy_evaluator]
    rw [ih _ (evaluator_executeBy i.evaluator i p)]

structure DoesSame (L : Loading) (i i' : Interpreter) : Prop where
  task : i'.task = i.task
  store : i'.store = i.store
  levels : i'.levels = i.levels
  pools : PoolsDoSame L i.store i.pool i'.pool

variable {L : Loading} {ev ev' : Evaluator} {i i' : Interpreter}

/-- A program does the same with evaluators that run the same, and leaves interpreters that do. -/
theorem executeBy_doesSame (hev : Evaluator.RunsSame L ev ev') (h : DoesSame L i i')
    (hs : L.store i.store) (p : Program) :
    (i'.executeBy ev' p).1 = (i.executeBy ev p).1 ∧
      DoesSame L (i.executeBy ev p).2 (i'.executeBy ev' p).2 ∧
      L.rel i.store (i.executeBy ev p).2.store ∧
      (i.executeBy ev p).2.task.directory = i.task.directory := by
  have hsettles := hev.work.settle? i.levels hs (hev.program p i.task i.store hs) h.pools
  unfold executeBy
  rw [h.task, h.store, h.levels]
  revert hsettles
  generalize ev.settle? i.levels i.pool (ev.program p i.task i.store) = settled
  generalize ev'.settle? i.levels i'.pool (ev'.program p i.task i.store) = settled'
  rintro (_ | ⟨hdirectory, hgrows, hpools⟩)
  · exact ⟨rfl, h, L.refl _, rfl⟩
  · exact ⟨rfl, ⟨rfl, rfl, rfl, hpools⟩, hgrows, hdirectory⟩

/-- So does a list of programs, one after the other. -/
theorem session_doesSame (hev : Evaluator.RunsSame L ev ev') (h : DoesSame L i i')
    (hs : L.store i.store) (ps : List Program) :
    (i'.session (executeBy ev') ps).1 = (i.session (executeBy ev) ps).1 ∧
      DoesSame L (i.session (executeBy ev) ps).2 (i'.session (executeBy ev') ps).2 ∧
      L.rel i.store (i.session (executeBy ev) ps).2.store ∧
      (i.session (executeBy ev) ps).2.task.directory = i.task.directory := by
  induction ps generalizing i i' with
  | nil => exact ⟨rfl, h, L.refl _, rfl⟩
  | cons p rest ih =>
    obtain ⟨hreport, hnext, hgrows, hdirectory⟩ := executeBy_doesSame hev h hs p
    obtain ⟨hreports, hlast, hgrows', hdirectory'⟩ := ih hnext (L.keeps hs hgrows)
    refine ⟨?_, hlast, L.trans hgrows hgrows', hdirectory'.trans hdirectory⟩
    exact congrArg₂ List.cons hreport hreports

end Interpreter

namespace Evaluator

theorem flow_work (work : Work) :
    Flow .free loadingReach (fun ev => ev.work work) (Value.Obeys .free) := by
  cases work with
  | call callee => exact .run rfl
  | evaluate e =>
    refine .bind (.expr rfl) fun v _ => .ite (fun _ => .run rfl) fun _ => .pure v.obeys_free

variable {L : Loading} {host : HostHandler} {gate : Gate} (hhost : host.Flows .free)
  (hgate : gate.Opens L) (alarm : Job → Script Value) (levels : Nat)

include hhost hgate

theorem endsSame_gated {f : Evaluator → Script Value}
    (hf : Flow .free loadingReach f (Value.Obeys .free)) (t : Task) {s : Store} (hs : L.store s) :
    (f (withLevels host levels) t s).EndsSame L t.directory s
      (f (gated host gate alarm levels []) t s) := by
  refine (relates_gated hhost hgate alarm levels t.directory hf t t s ⟨rfl, rfl⟩ t.obeys_free
    s.obeys_free ⟨hs, by simp⟩).mono fun o u u' h ho => ?_
  cases o with
  | value v => exact h.2.2
  | signal x => exact h.2.2
  | starved => contradiction

/-- The evaluator runs the same with the gate as without. -/
theorem runsSame_gated :
    RunsSame L (withLevels host levels) (gated host gate alarm levels []) where
  work work t _ hs :=
    (endsSame_gated hhost hgate alarm levels (flow_work work) t hs).mono fun _ _ _ h ho => (h ho).1
  program _ t _ hs := endsSame_gated hhost hgate alarm levels
    (flow_program (loadingReach_covers rfl) trivial) t hs

end Evaluator

/-! ## Directories -/

/-- However a script ends that is loaded, the directory that counts is the same as before. -/
theorem Evaluator.load_keeps_directory (ev : Evaluator) (path : String) (t : Task) (s : Store) :
    (ev.load path t s).Ends fun o t' => o ≠ .starved → t'.directory = t.directory := by
  have hrestores (r : Run Value) :
      (r.capture.bind fun outcome t' s' =>
        (Script.release outcome { t' with directory := t.directory } s').bind
          fun _ t' s' => .finished (.value ()) t' s').Ends
        fun o t' => o ≠ .starved → t'.directory = t.directory := by
    induction r with
    | finished o t' s' =>
      cases o with
      | starved => exact .finished fun h => absurd rfl h
      | _ => exact .finished fun _ => rfl
    | waiting r s' resume ih => exact .waiting ih
  rw [load_eq]
  split
  · exact .finished fun _ => rfl
  · split
    · exact .finished fun _ => rfl
    · dsimp only
      split
      · exact .finished fun _ => rfl
      · exact hrestores _

namespace Interpreter

/-- Whatever files there are, an interpreter that runs programs one after the other does the same
if an alarm sounds where the statements of a script are started by loading it and they have been
started before, or the directory that counts is not the script's own, or more scripts are being
loaded inside each other than there are files. Every start is recorded, and at the end no file has
been started twice. In the course of every job the record stays so, and the directory that counts is
the same after every job and after every loading of a script, however it ends. -/
theorem scripts_run_once {host : HostHandler} (hhost : host.Flows .free) (settings : Settings)
    (files : FileTree) (environment : Dict String) (input : List UInt8) (directory : List String)
    (machine : Machine) (levels : Nat) (alarm : Job → Script Value) (ps : List Program) :
    let i : Interpreter := { create settings with
      store := { (create settings).store with files, environment, input, directory, machine }
      host, levels }
    let once := Evaluator.gated host Evaluator.startsOnce alarm levels []
    let plain := i.session execute ps
    let watched := i.session (executeBy once) ps
    (watched.1 = plain.1 ∧ watched.2.task = plain.2.task ∧ watched.2.store = plain.2.store) ∧
      (plain.2.store.executed.Nodup ∧ (∀ place ∈ plain.2.store.executed, files.holdsFile place) ∧
        plain.2.store.files = files ∧ plain.2.task.directory = settings.baseDirectory) ∧
      (∀ (ev : Evaluator) place body t s, ev.step (.load place body) t s =
        (ev.script body >>= fun result => pure result.1 : Script Value) t (s.start place)) ∧
      (∀ job t s, job.isLoad = false → Store.LoadsFiles s → Store.RunsOnce s →
        (i.evaluator.run job t s).EndsSame .once t.directory s (once.run job t s)) ∧
      ∀ (ev : Evaluator) path t s, (ev.load path t s).Ends fun o t' =>
        o ≠ .starved → t'.directory = t.directory := by
  intro i once plain watched
  have hs : Loading.once.store i.store :=
    ⟨⟨List.nodup_nil, by simp [i, create]⟩, List.nodup_nil, by simp [i, create]⟩
  have hstart : DoesSame .once i i := ⟨rfl, rfl, rfl, .nil⟩
  have hruns := Evaluator.runsSame_gated hhost Evaluator.opens_startsOnce alarm levels
  obtain ⟨hreports, hsame, hgrows, hdirectory⟩ := session_doesSame hruns hstart hs ps
  have hplain : plain = i.session (executeBy (.withLevels host levels)) ps := i.session_execute ps
  rw [← hplain] at hreports hsame hgrows hdirectory
  obtain ⟨hloads, hruns⟩ := Loading.once.keeps hs hgrows
  have hfiles : plain.2.store.files = files := hgrows.1.files
  refine ⟨⟨hreports, hsame.task, hsame.store⟩, ⟨hruns.nodup, ?_, hfiles, hdirectory⟩,
    Evaluator.step_load, ?_, Evaluator.load_keeps_directory⟩
  · intro place hplace
    exact hfiles ▸ hloads.files place (hruns.loaded place hplace)
  · intro job t s hjob hfiles hruns
    exact Evaluator.endsSame_gated hhost Evaluator.opens_startsOnce alarm levels (.run hjob) t
      ⟨hfiles, hruns⟩

/-- Two scripts that load each other, and programs that load both of them by several paths. -/
theorem scripts_run_once_circle :
    let files : FileTree :=
      ⟨[(["a.joss"], .text "import \"b\""), (["b.joss"], .text "import \"a\"")]⟩
    let i : Interpreter := { create {} with
      store := { (create {}).store with
        files, environment := [], input := [], directory := [], machine := .plain }
      host := .none, levels := 99 }
    let ps : List Program := [⟨[.load "a", .load "b"]⟩, ⟨[.load "./b.joss"]⟩]
    HostHandler.none.Flows .free ∧
      (i.session execute ps).2.store.executed = [["b.joss"], ["a.joss"]] ∧
      (i.session (executeBy (.gated .none Evaluator.startsOnce (fun _ => Script.starve) 99 []))
        ps).1 = (i.session execute ps).1 := by
  intro files i ps
  have hhost := HostHandler.none_flows .free
  exact ⟨hhost, by decide +kernel,
    (scripts_run_once hhost {} files [] [] [] .plain 99 (fun _ => Script.starve) ps).1.1⟩

end Interpreter

end RouteScript
