import BusSaathi.DatabaseService
import Mathlib.Data.List.Induction

/-! Histories of completed store calls. The tables after a history are the rows written
since the last `clearAllData`, each table under last-write-wins. -/
namespace StoreHistory

open KeyedTable StatementPrograms.Prog DartRuntime Models DatabaseService

variable {D T : Type}

inductive StoreCall (D T : Type) where
  | insertBus (bus : Bus D T)
  | insertRoute (route : Route D)
  | clearAllData

def noteRoute (routes : List (Route D)) : StoreCall D T → List (Route D)
  | .insertRoute route => routes ++ [route]
  | .insertBus _ => routes
  | .clearAllData => []

def noteBus (buses : List (Bus D T)) : StoreCall D T → List (Bus D T)
  | .insertBus bus => buses ++ [bus]
  | .insertRoute _ => buses
  | .clearAllData => []

/-- The routes given to `insertRoute` since the last `clearAllData`, in call order. -/
def routesSinceClear (h : List (StoreCall D T)) : List (Route D) := h.foldl noteRoute []

def busesSinceClear (h : List (StoreCall D T)) : List (Bus D T) := h.foldl noteBus []

def stopRows (routes : List (Route D)) : List (StopRow D) :=
  routes.flatMap fun route => route.stops.map (stopRow route.id)

theorem routesSinceClear_concat (h : List (StoreCall D T)) (call : StoreCall D T) :
    routesSinceClear (h ++ [call]) = noteRoute (routesSinceClear h) call := by
  simp [routesSinceClear]

theorem busesSinceClear_concat (h : List (StoreCall D T)) (call : StoreCall D T) :
    busesSinceClear (h ++ [call]) = noteBus (busesSinceClear h) call := by
  simp [busesSinceClear]

theorem mem_routesSinceClear {h : List (StoreCall D T)} {route : Route D}
    (hr : route ∈ routesSinceClear h) : .insertRoute route ∈ h := by
  induction h using List.reverseRecOn with
  | nil => simp [routesSinceClear] at hr
  | append_singleton h call ih =>
    rw [routesSinceClear_concat] at hr
    cases call with
    | insertRoute new =>
      rcases List.mem_append.mp hr with hr | hr
      · exact List.mem_append_left _ (ih hr)
      · rw [List.mem_singleton.mp hr]; exact List.mem_append_right _ List.mem_cons_self
    | insertBus bus => exact List.mem_append_left _ (ih hr)
    | clearAllData => cases hr

theorem mem_busesSinceClear {h : List (StoreCall D T)} {bus : Bus D T}
    (hb : bus ∈ busesSinceClear h) : .insertBus bus ∈ h := by
  induction h using List.reverseRecOn with
  | nil => simp [busesSinceClear] at hb
  | append_singleton h call ih =>
    rw [busesSinceClear_concat] at hb
    cases call with
    | insertBus new =>
      rcases List.mem_append.mp hb with hb | hb
      · exact List.mem_append_left _ (ih hb)
      · rw [List.mem_singleton.mp hb]; exact List.mem_append_right _ List.mem_cons_self
    | insertRoute route => exact List.mem_append_left _ (ih hb)
    | clearAllData => cases hb

section Runs

variable [DartDouble D] [DartDateTime T]

def StoreCall.prog : StoreCall D T → DbProg D Unit
  | .insertBus bus => DatabaseService.insertBus bus
  | .insertRoute route => DatabaseService.insertRoute route
  | .clearAllData => DatabaseService.clearAllData

/-- The database after the calls, if every one of them completes normally. -/
def runHistory (h : List (StoreCall D T)) : Option (Database D) :=
  runAll exec (h.map StoreCall.prog) emptyDatabase

structure HistoryInvariant (h : List (StoreCall D T)) (db : Database D) : Prop where
  buses : db.buses = Table.empty.replaceAll ((busesSinceClear h).map busRow)
  stops : db.stops = Table.empty.replaceAll (stopRows (routesSinceClear h))
  routes : ∃ rows, db.routes = Table.empty.replaceAll rows ∧
    List.Forall₂ (fun route row => routeRow route = .ok row) (routesSinceClear h) rows

theorem historyInvariant_empty : HistoryInvariant ([] : List (StoreCall D T)) emptyDatabase :=
  ⟨rfl, rfl, [], rfl, .nil⟩

theorem historyInvariant_step {h : List (StoreCall D T)} {call : StoreCall D T}
    {db db' : Database D} {u : Unit} (hdb : HistoryInvariant h db)
    (hrun : run exec call.prog db = (.ok u, db')) : HistoryInvariant (h ++ [call]) db' := by
  obtain ⟨hb, hs, rows, hr, hrows⟩ := hdb
  cases call with
  | insertBus bus =>
    rw [StoreCall.prog, run_insertBus] at hrun
    cases hrun
    refine ⟨?_, ?_, rows, hr, ?_⟩
    · simp [busesSinceClear_concat, noteBus, hb, Table.replaceAll_append]
    · rwa [routesSinceClear_concat]
    · rwa [routesSinceClear_concat]
  | insertRoute route =>
    cases hrow : routeRow route with
    | error e =>
      rw [StoreCall.prog, run_insertRoute_error hrow] at hrun
      cases hrun
    | ok row =>
      rw [StoreCall.prog, run_insertRoute_ok hrow] at hrun
      cases hrun
      refine ⟨?_, ?_, rows ++ [row], ?_, ?_⟩
      · rwa [busesSinceClear_concat]
      · simp [routesSinceClear_concat, noteRoute, hs, stopRows, Table.replaceAll_append]
      · simp [hr, Table.replaceAll_append]
      · rw [routesSinceClear_concat]
        exact List.rel_append hrows (.cons hrow .nil)
  | clearAllData =>
    rw [StoreCall.prog, run_clearAllData] at hrun
    cases hrun
    refine ⟨?_, ?_, [], rfl, ?_⟩
    · rw [busesSinceClear_concat]; rfl
    · rw [routesSinceClear_concat]; rfl
    · rw [routesSinceClear_concat]; exact .nil

theorem historyInvariant_run {h : List (StoreCall D T)} {db : Database D}
    (hrun : runHistory h = some db) : HistoryInvariant h db := by
  induction h using List.reverseRecOn generalizing db with
  | nil => cases hrun; exact historyInvariant_empty
  | append_singleton h call ih =>
    unfold runHistory at hrun
    rw [List.map_append, List.map_singleton] at hrun
    obtain ⟨mid, u, hmid, hcall⟩ := runAll_concat exec hrun
    exact historyInvariant_step (ih hmid) hcall

end Runs

end StoreHistory
