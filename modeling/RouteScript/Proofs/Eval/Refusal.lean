import RouteScript.Proofs.Eval.Loading
import RouteScript.Proofs.Eval.Settling

/-!
# Scripts that cannot be loaded

A path that leads to no file fails every time. A file that cannot be read, or that is no program,
fails the first time only: it counts as loaded from then on, and to load it again by whatever path
does nothing.
-/

namespace RouteScript

/-- The file at a place cannot be loaded: it has no text, or its text is no program. -/
inductive FileTree.Refuses (t : FileTree) (place : List String) : LoadProblem → Prop
  | unreadable {problem : FileProblem} (h : t.textAt place = .error problem) :
    Refuses t place (.unreadable problem)
  | malformed {source : String} {diagnostics : List Diagnostic}
    (htext : t.textAt place = .ok source) (h : Program.ofSource source = .error diagnostics) :
    Refuses t place (.malformed diagnostics)

/-! ## What counts as loaded -/

/-- However the run goes on, the script at a place counts as loaded, as long as other tasks only
load scripts while it waits. -/
inductive Run.Remembers {α : Type} (place : List String) : Run α → Prop
  | finished {o : Outcome α} {t : Task} {s : Store} (h : place ∈ s.loaded) :
    Remembers place (.finished o t s)
  | waiting {r : Request} {s : Store} {resume : r.Reply → Store → Run α} (h : place ∈ s.loaded)
    (hresume : ∀ reply s', s.Loads s' → Remembers place (resume reply s')) :
    Remembers place (.waiting r s resume)

/-- Growth of the loaded files never forgets one of them. -/
theorem Run.Coupled.remembers {α : Type} {P : Outcome α → Task → Task → Prop} {s : Store}
    {r r' : Run α} (h : r.Coupled .free Loading.ofFiles.toGrowth P s r') {place : List String}
    (hplace : place ∈ s.loaded) : r.Remembers place := by
  induction h with
  | finished hgrows => exact .finished (hgrows.loaded.subset hplace)
  | waiting hgrows _ _ ih =>
    have hwaiting := hgrows.loaded.subset hplace
    refine .waiting hwaiting fun reply s' hs' => ?_
    exact ih reply s' hs' (Store.obeys_free s') (Request.brings_free _ reply)
      (hs'.loaded.subset hwaiting)

namespace Evaluator

variable {path : String} {place : List String} {t t' : Task} {s s' : Store}

theorem locate?_of_same (hfiles : s'.files = s.files) (hdirectory : s'.directory = s.directory)
    (htask : t'.directory = t.directory) : locate? path t' s' = locate? path t s := by
  simp only [locate?, globalCandidates, candidates, hfiles, hdirectory, htask]

/-- A gate that is always open. -/
theorem opens_always : Gate.Opens (fun _ _ _ _ => true) .ofFiles := fun _ _ _ _ _ _ _ _ _ => rfl

/-- A script whose text is refused fails with that problem. -/
theorem readScript_of_refuses {problem : LoadProblem} (h : s.files.Refuses place problem) :
    readScript path place s = .error (.load path problem) := by
  cases h with
  | unreadable htext => simp only [readScript, htext]
  | malformed htext hprogram => simp only [readScript, htext, hprogram]

end Evaluator

namespace Interpreter

def locate? (path : String) (i : Interpreter) : Option (List String) :=
  Evaluator.locate? path i.task i.store

def load? (path : String) (i : Interpreter) : Option (Except Signal Unit × Interpreter) :=
  i.run? (i.evaluator.load path)

def noting (place : List String) (i : Interpreter) : Interpreter :=
  { i with store := { i.store with loaded := place :: i.store.loaded } }

variable {i : Interpreter} {path : String} {place : List String} {problem : LoadProblem}

/-- A script that is not found is a fault and leaves no trace. -/
theorem load?_of_not_found (hplace : i.locate? path = none) :
    i.load? path = some (.error (.failed (.load path .notFound)), i) := by
  refine run?_of_release ?_
  rw [Evaluator.load_eq, show Evaluator.locate? path i.task i.store = none from hplace]
  rfl

/-- A script that counts as loaded is passed over. -/
theorem load?_of_loaded (hplace : i.locate? path = some place) (hloaded : place ∈ i.store.loaded) :
    i.load? path = some (.ok (), i) := by
  refine run?_of_release ?_
  rw [Evaluator.load_eq, show Evaluator.locate? path i.task i.store = some place from hplace]
  simp only [hloaded, if_true]
  rfl

/-- A script that cannot be loaded leaves its mark. -/
theorem load?_of_refuses (hplace : i.locate? path = some place) (hnew : place ∉ i.store.loaded)
    (h : i.store.files.Refuses place problem) :
    i.load? path = some (.error (.failed (.load path problem)), i.noting place) := by
  refine run?_of_release ?_
  rw [Evaluator.load_eq, show Evaluator.locate? path i.task i.store = some place from hplace]
  simp only [hnew, if_false, Evaluator.readScript_of_refuses h]
  rfl

/-! ## Sessions -/

/-- What holds of an interpreter between two programs: only files have been loaded, each of them
once, and the tasks that wait can go on. -/
structure IsSteady (i : Interpreter) : Prop where
  host : i.host.Flows .free
  files : i.store.LoadsFiles
  pool : ∃ pool, PoolsDoSame .ofFiles i.store i.pool pool

theorem evaluator_session (i : Interpreter) (ps : List Program) :
    (i.session execute ps).2.evaluator = i.evaluator := by
  induction ps generalizing i with
  | nil => rfl
  | cons p rest ih =>
    rw [session, ih, ← executeBy_evaluator, evaluator_executeBy]

namespace IsSteady

/-- An interpreter that has noted a new place is still steady. -/
theorem noting (h : i.IsSteady) (hplace : i.locate? path = some place)
    (hnew : place ∉ i.store.loaded) : (i.noting place).IsSteady := by
  have hloads := Store.loads_of_new (Evaluator.holdsFile_of_locate? hplace) hnew
  obtain ⟨pool, hpool⟩ := h.pool
  exact ⟨h.host, hloads.keeps h.files, pool, Sleeper.poolsDoSame_mono hloads hpool⟩

/-- Programs load more scripts, and leave files and directories as they are. -/
theorem session (h : i.IsSteady) (ps : List Program) :
    (i.session execute ps).2.IsSteady ∧ i.store.Loads (i.session execute ps).2.store ∧
      (i.session execute ps).2.task.directory = i.task.directory := by
  obtain ⟨pool, hpool⟩ := h.pool
  have hstart : DoesSame .ofFiles i { i with pool } := ⟨rfl, rfl, rfl, hpool⟩
  have hruns := Evaluator.runsSame_gated h.host Evaluator.opens_always (fun _ => Script.starve)
    i.levels
  obtain ⟨-, hsame, hloads, hdirectory⟩ := session_doesSame hruns hstart h.files ps
  have hsession : i.session execute ps =
      i.session (executeBy (.withLevels i.host i.levels)) ps := i.session_execute ps
  rw [← hsession] at hsame hloads hdirectory
  have hhost : (i.session execute ps).2.host = i.host :=
    congrArg Evaluator.host (evaluator_session i ps)
  exact ⟨⟨hhost ▸ h.host, hloads.keeps h.files, _, hsame.pools⟩, hloads, hdirectory⟩

end IsSteady

/-- Every interpreter is steady at its start. -/
theorem isSteady_start {host : HostHandler} (hhost : host.Flows .free) (settings : Settings)
    (files : FileTree) (environment : Dict String) (input : List UInt8) (directory : List String)
    (machine : Machine) (levels : Nat) : IsSteady { create settings with
      store := { (create settings).store with files, environment, input, directory, machine }
      host, levels } :=
  ⟨hhost, ⟨List.nodup_nil, by simp [create]⟩, [], .nil⟩

/-- A path that leads nowhere fails every time and changes nothing. A script that cannot be loaded
fails with the same problem wherever it has not been loaded yet, but it counts as loaded then: all
programs that run later find it so, and to load it by this path or by another one does nothing. -/
theorem refused_script_counts_as_loaded {host : HostHandler} (hhost : host.Flows .free)
    (settings : Settings) (files : FileTree) (environment : Dict String) (input : List UInt8)
    (directory : List String) (machine : Machine) (levels : Nat) (ps : List Program)
    (path : String) :
    let start : Interpreter := { create settings with
      store := { (create settings).store with files, environment, input, directory, machine }
      host, levels }
    let i := (start.session execute ps).2
    (i.locate? path = none → i.load? path = some (.error (.failed (.load path .notFound)), i)) ∧
    ∀ place problem, i.locate? path = some place → place ∉ i.store.loaded →
      files.Refuses place problem →
      i.load? path = some (.error (.failed (.load path problem)), i.noting place) ∧
      (∀ k : Interpreter, k.store.files = files → k.store.directory = directory →
        k.task.directory = settings.baseDirectory → place ∉ k.store.loaded →
        k.load? path = some (.error (.failed (.load path problem)), k.noting place)) ∧
      (∀ later, let k := ((i.noting place).session execute later).2
        place ∈ k.store.loaded ∧ k.load? path = some (.ok (), k) ∧
        ∀ other, k.locate? other = some place → k.load? other = some (.ok (), k)) ∧
      ∀ job t s, job.isLoad = false → s.LoadsFiles → place ∈ s.loaded →
        (i.evaluator.run job t s).Remembers place := by
  intro start i
  have hstart : start.IsSteady :=
    isSteady_start hhost settings files environment input directory machine levels
  obtain ⟨hsteady, hloads, hdirectory⟩ := hstart.session ps
  refine ⟨load?_of_not_found, ?_⟩
  intro place problem hplace hnew hrefuses
  have located (k : Interpreter) (hfiles : k.store.files = files)
      (hworking : k.store.directory = directory)
      (htask : k.task.directory = settings.baseDirectory) : k.locate? path = some place := by
    rw [← hplace]
    exact Evaluator.locate?_of_same (hfiles.trans hloads.files.symm)
      (hworking.trans hloads.directory.symm) (htask.trans hdirectory.symm)
  refine ⟨?_, ?_, ?_, ?_⟩
  · exact load?_of_refuses hplace hnew (hloads.files ▸ hrefuses)
  · intro k hfiles hworking htask hunknown
    exact load?_of_refuses (located k hfiles hworking htask) hunknown (hfiles ▸ hrefuses)
  · intro later k
    obtain ⟨-, hlater, hkept⟩ := (hsteady.noting hplace hnew).session later
    have hknown : place ∈ k.store.loaded := hlater.loaded.subset (by simp [Interpreter.noting])
    have hsame := located k (hlater.files.trans hloads.files)
      (hlater.directory.trans hloads.directory) (hkept.trans hdirectory)
    exact ⟨hknown, load?_of_loaded hsame hknown, fun other hother => load?_of_loaded hother hknown⟩
  · intro job t s hjob hs hknown
    rw [show i.evaluator = .withLevels host levels from evaluator_session start ps]
    exact (Evaluator.endsSame_gated hhost Evaluator.opens_always (fun _ => Script.starve) levels
      (.run hjob) t hs).remembers hknown

/-- A script that ends inside a bracket, loaded twice. -/
theorem refused_script_counts_as_loaded_open_bracket :
    let files : FileTree := ⟨[(["bad.joss"], .text "$x = (")]⟩
    let i : Interpreter := { create {} with
      store := { (create {}).store with
        files, environment := [], input := [], directory := [], machine := .plain }
      host := .none, levels := 99 }
    let marked := i.noting ["bad.joss"]
    HostHandler.none.Flows .free ∧ i.locate? "bad" = some ["bad.joss"] ∧
      ∃ problem, files.Refuses ["bad.joss"] problem ∧
        i.load? "bad" = some (.error (.failed (.load "bad" problem)), marked) ∧
        marked.load? "bad" = some (.ok (), marked) := by
  intro files i marked
  have hhost := HostHandler.none_flows .free
  have hplace : i.locate? "bad" = some ["bad.joss"] := by decide +kernel
  have hmalformed : (Program.ofSource "$x = (").isOk = false := by decide +kernel
  obtain ⟨problem, hproblem⟩ : ∃ problem, files.Refuses ["bad.joss"] problem := by
    cases hprogram : Program.ofSource "$x = (" with
    | ok p => rw [hprogram] at hmalformed; cases hmalformed
    | error diagnostics => exact ⟨_, .malformed (by decide +kernel) hprogram⟩
  obtain ⟨hfirst, -, hlater, -⟩ :=
    (refused_script_counts_as_loaded hhost {} files [] [] [] .plain 99 [] "bad").2
      ["bad.joss"] problem hplace (by decide) hproblem
  exact ⟨hhost, hplace, problem, hproblem, hfirst, (hlater []).2.1⟩

end Interpreter

end RouteScript
