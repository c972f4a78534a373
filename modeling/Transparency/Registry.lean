import Transparency.Log
import Transparency.ResultCode

/-!
# Registries of logs

A registry is built from a whole list of logs or not at all. Its logs stand in the order of their
ids, each id once, whatever their order in the list.
-/
namespace Transparency

namespace Registry

/-- Whether logs stand in the order of their ids, each id once. -/
def Ordered (logs : List Log) : Prop :=
  logs.Pairwise fun a b => a.id.bytes < b.id.bytes

/-- Puts a log before the first one with a greater id. -/
def insertById (log : Log) : List Log → List Log
  | [] => [log]
  | first :: logs =>
    if log.id.bytes < first.id.bytes then log :: first :: logs
    else first :: insertById log logs

theorem mem_insertById {a log : Log} {logs : List Log} :
    a ∈ insertById log logs ↔ a = log ∨ a ∈ logs := by
  induction logs with
  | nil => simp [insertById]
  | cons first logs ih => by_cases less : log.id.bytes < first.id.bytes <;> grind [insertById]

theorem ordered_insertById {log : Log} {logs : List Log} (ordered : Ordered logs)
    (fresh : ∀ a ∈ logs, a.id.bytes ≠ log.id.bytes) : Ordered (insertById log logs) := by
  induction logs with
  | nil => simp [insertById, Ordered]
  | cons first logs ih =>
    obtain ⟨below, tail⟩ := List.pairwise_cons.1 ordered
    by_cases less : log.id.bytes < first.id.bytes
    · rw [insertById, if_pos less]
      refine List.pairwise_cons.2 ⟨fun a ha => ?_, ordered⟩
      obtain rfl | ha := List.mem_cons.1 ha
      · exact less
      · exact List.lt_trans less (below a ha)
    · rw [insertById, if_neg less]
      have greater : first.id.bytes < log.id.bytes :=
        Std.lt_of_le_of_ne less (fresh first List.mem_cons_self)
      refine List.pairwise_cons.2
        ⟨fun a ha => ?_, ih tail fun a ha => fresh a (List.mem_cons_of_mem first ha)⟩
      obtain rfl | ha := mem_insertById.1 ha
      · exact greater
      · exact below a ha

end Registry

structure Registry where
  logs : List Log := []
  ordered : Registry.Ordered logs := by exact List.Pairwise.nil
deriving Inhabited

namespace Registry

def find? (r : Registry) (id : Bytes) : Option Log :=
  r.logs.find? fun log => log.id.bytes = id

theorem id_of_find? {r : Registry} {id : Bytes} {log : Log} (found : r.find? id = some log) :
    log.id.bytes = id := by
  simpa using List.find?_some found

def size (r : Registry) : Nat := r.logs.length

/-- Puts a log in its place, unless its id is taken. -/
def insert? (r : Registry) (log : Log) : Option Registry :=
  if h : (r.find? log.id.bytes).isNone then
    some ⟨insertById log r.logs, ordered_insertById r.ordered (by simpa [find?] using h)⟩
  else none

inductive Fault
  | unusable (fault : Log.Fault)
  | wrongId
  | duplicate (id : Digest)
deriving DecidableEq

def Fault.notes (l : Listing) : Fault → List Journal.Note
  | unusable fault =>
    [.verbose (fault.message l.description),
      .error ("Rejecting log list: unusable key or merge delay for log " ++ l.description)]
  | wrongId =>
    [.error ("Rejecting log list: declared id " ++ Hex.text l.logId ++
      " does not match the key of log " ++ l.description)]
  | duplicate id =>
    [.error ("Rejecting log list: duplicate log id " ++ Hex.text id.bytes ++ " for log " ++
      l.description)]

/-- The log of a listing, and the registry with it. -/
def add (suite : Suite) (r : Registry) (l : Listing) : Except Fault (Log × Registry) :=
  match Log.create suite l with
  | .error fault => .error (.unusable fault)
  | .ok log =>
    if !l.logId.isEmpty && l.logId ≠ log.id.bytes then .error .wrongId
    else
      match r.insert? log with
      | none => .error (.duplicate log.id)
      | some r => .ok (log, r)

def addition (log : Log) : Journal.Note :=
  .verbose ("Adding log " ++ log.description ++ " (" ++ Hex.text log.id.bytes ++ "), MMD " ++
    log.mergeDelay.text)

/-- Adds listings in order, up to the first one at fault, and tells what happened. -/
def extend (suite : Suite) (r : Registry) :
    List Listing → List Journal.Note × Except Fault Registry
  | [] => ([], .ok r)
  | l :: ls =>
    match add suite r l with
    | .error fault => (fault.notes l, .error fault)
    | .ok (log, r) =>
      let (notes, registry) := extend suite r ls
      (addition log :: notes, registry)

/-- The registry of a list of logs, if there is one, and the code that goes with it. -/
structure Built where
  registry : Option Registry
  code : ResultCode
  notes : List Journal.Note := []

def create (suite : Suite) (listings : List Listing) : Built :=
  match extend suite {} listings with
  | (notes, .ok r) => ⟨some r, .ok, notes⟩
  | (notes, .error _) => ⟨none, .invalidLogList, notes⟩

end Registry

end Transparency
