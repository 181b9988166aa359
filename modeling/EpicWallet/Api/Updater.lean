import EpicWallet.Libwallet.Owner

/-!
# The updater thread

`libwallet/src/api_impl/owner_updater.rs` and the calls of `api/src/owner.rs` that start and stop it.
Each `start_updater` spawns a thread that waits for the lock on the updater and then runs its loop; the
flag `updater_running` is read and written by single atomic steps. What an update does to the wallet is
`Owner.updateWalletState`; here it is one of its outcomes.
-/

namespace EpicWallet

open Lib

namespace OwnerUpdater

/-- What `start_updater` hands to its thread. -/
structure Launch where
  keychainMask : Option SecretKey
  frequency : Nat
deriving DecidableEq

/-- Where the thread that holds the updater's lock is in `run`. -/
inductive Phase where
  /-- Before the flag is set. -/
  | locked
  /-- At the top of the loop. -/
  | top
  | updating
  /-- Before the flag is read. -/
  | updated
  | sleeping
deriving DecidableEq

/-- The flag, the threads that wait for the updater's lock, and the one that has it. -/
structure State where
  updaterRunning : Bool
  waiting : List Launch
  running : Option (Launch × Phase)
deriving DecidableEq

/-- `Owner::new`, with the flag as `Updater::new` stores it. -/
def new : State where
  updaterRunning := false
  waiting := []
  running := none

/-- The calls, and the steps of the threads. -/
inductive Event where
  | startUpdater (l : Launch)
  | stopUpdater
  /-- The `i`th thread that waits gets the lock. -/
  | lock (i : Nat)
  | setRunning
  | beginUpdate
  | endUpdate (r : Except (Fault Error) Bool)
  | readRunning
  | wake
deriving DecidableEq

/-- The state after an event, if it can happen. A loop that is left gives the lock back. -/
def step (x : State) : Event → Option State
  | .startUpdater l => some { x with waiting := x.waiting ++ [l] }
  | .stopUpdater => some { x with updaterRunning := false }
  | .lock i =>
    match x.running, x.waiting[i]? with
    | none, some l => some { x with waiting := x.waiting.eraseIdx i, running := some (l, .locked) }
    | _, _ => none
  | .setRunning =>
    match x.running with
    | some (l, .locked) => some { x with updaterRunning := true, running := some (l, .top) }
    | _ => none
  | .beginUpdate =>
    match x.running with
    | some (l, .top) => some { x with running := some (l, .updating) }
    | _ => none
  | .endUpdate r =>
    match x.running, r with
    | some (l, .updating), .ok _ => some { x with running := some (l, .updated) }
    -- `?` leaves the loop, and so does a panic
    | some (_, .updating), .error _ => some { x with running := none }
    | _, _ => none
  | .readRunning =>
    match x.running with
    | some (l, .updated) =>
      some { x with running := if x.updaterRunning then some (l, .sleeping) else none }
    | _ => none
  | .wake =>
    match x.running with
    | some (l, .sleeping) => some { x with running := some (l, .top) }
    | _ => none

/-- Whether `retrieve_outputs`, `retrieve_txs`, `retrieve_summary_info` and `retrieve_payment_proof`
refresh the wallet. -/
def refreshes (x : State) (refreshFromNode : Bool) : Bool :=
  match x.updaterRunning with
  | true => false
  | false => refreshFromNode

end OwnerUpdater

end EpicWallet
