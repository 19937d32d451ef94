import Ironclaw.Lib.Run
import Ironclaw.Lib.Text

/-!
# The pairing store of a channel

The store keeps three JSON files per channel: the pending requests, the `allowFrom` list and the failed approvals.
A file is what a reader finds in it (`File`); a file that is empty or does not parse reads as its default. Timestamps
are the seconds they denote, and the random generator is a stream given with the operation.

Opening a file is modelled as it is done: `upsert_request` and `record_failed_approve` open without truncating,
`add_allow_from` truncates on open, before it reads.
-/

namespace Ironclaw.Pairing

open Text

/-- What a file holds. -/
inductive File (α : Type*)
  | missing
  /-- The file is there, but its text is no JSON of the expected shape. An empty file is one. -/
  | unreadable
  | json (a : α)
  deriving DecidableEq

namespace File

variable {α : Type*}

/-- Reading with a default (`unwrap_or_default`, `unwrap_or`). -/
def get (d : α) : File α → α
  | .json a => a
  | _ => d

def isMissing : File α → Bool
  | .missing => true
  | _ => false

/-- Opening with `create(true)` and `truncate(false)`. -/
def create : File α → File α
  | .missing => .unreadable
  | f => f

/-- Opening with `create(true)` and `truncate(true)`. -/
def truncate (_ : File α) : File α := .unreadable

@[simp] theorem get_create (d : α) (f : File α) : f.create.get d = f.get d := by cases f <;> rfl

end File

def PAIRING_PENDING_TTL_SECS : Nat := 15 * 60
def PAIRING_PENDING_MAX : Nat := 3
def PAIRING_APPROVE_RATE_LIMIT : Nat := 10
def PAIRING_APPROVE_RATE_WINDOW_SECS : Nat := 5 * 60

inductive PairingStoreError
  | invalidChannel (reason : Str)
  | approveRateLimited
  deriving DecidableEq

structure UpsertResult where
  code : Str
  created : Bool
  deriving DecidableEq

/-- A pending pairing request; `μ` is the type of the channel's metadata. -/
structure PairingRequest (μ : Type) where
  id : Str
  code : Str
  createdAt : Nat
  lastSeenAt : Nat
  metadata : Option μ
  deriving DecidableEq

/-- The files of one channel. -/
structure Files (μ : Type) where
  pairing : File (List (PairingRequest μ))
  allowFrom : File (List Str)
  approveAttempts : File (List Nat)
  deriving DecidableEq

/-- A channel nobody has written to. -/
def Files.fresh (μ : Type) : Files μ := ⟨.missing, .missing, .missing⟩

/-- The random choices of one `upsert_request`: the codes drawn, and the suffix of the last resort. -/
structure Rng where
  code : Nat → Str
  suffix : Str

/-- The characters a file name must not have. -/
def isUnsafe (c : Char) : Bool := c ∈ ['\\', '/', ':', '*', '?', '"', '<', '>', '|']

def isExpired {μ : Type} (req : PairingRequest μ) (now : Nat) : Bool :=
  PAIRING_PENDING_TTL_SECS < now - req.createdAt

/-- The first of the codes `i`, `i + 1`, … that is not taken, in `tries` tries. -/
def firstUnused (rng : Rng) (existing : List Str) : (tries i : Nat) → Option Str
  | 0, _ => none
  | tries + 1, i => if rng.code i ∈ existing then firstUnused rng existing tries (i + 1) else some (rng.code i)

def generateUniqueCode (rng : Rng) (existing : List Str) : Str :=
  (firstUnused rng existing 500 0).getD (rng.code 500 ++ rng.suffix)

/-- The first element with `p`, and the list without it (`position`, then `remove`). -/
def removeFirst {α : Type*} (p : α → Bool) : List α → Option (α × List α)
  | [] => none
  | a :: as => if p a then some (a, as) else (removeFirst p as).map fun r => (r.1, a :: r.2)

section Operations

variable (cm : CaseMap) (channel : Str) {μ : Type}

def safeChannelKey : Except PairingStoreError Str :=
  let raw := cm.lower (trim channel)
  if raw.isEmpty then .error (.invalidChannel "empty".toList)
  else
    let safe := replace "..".toList "_".toList (raw.map fun c => if isUnsafe c then '_' else c)
    if safe.isEmpty || safe == "_".toList then .error (.invalidChannel channel) else .ok safe

/-- The requests of the pairing file that have not expired. -/
def unexpired (now : Nat) (s : Files μ) : List (PairingRequest μ) :=
  (s.pairing.get []).filter fun r => !isExpired r now

def listPending (now : Nat) (s : Files μ) : Except PairingStoreError (List (PairingRequest μ)) × Files μ :=
  match safeChannelKey cm channel with
  | .error e => (.error e, s)
  | .ok _ =>
    let requests := unexpired now s
    let s' := if requests.length ≠ (s.pairing.get []).length then { s with pairing := .json requests } else s
    (.ok (requests.mergeSort fun a b => a.createdAt ≤ b.createdAt), s')

/-- The request of a sender that is already waiting, seen again. -/
def seenAgain (now : Nat) (code : Str) (metadata : Option μ) (req : PairingRequest μ) : PairingRequest μ :=
  { req with lastSeenAt := now, code := code, metadata := metadata <|> req.metadata }

def upsertRequest (now : Nat) (rng : Rng) (id : Str) (metadata : Option μ) (s : Files μ) :
    Except PairingStoreError UpsertResult × Files μ :=
  match safeChannelKey cm channel with
  | .error e => (.error e, s)
  | .ok _ =>
    let s := { s with pairing := s.pairing.create }
    let id := trim id
    if id.isEmpty then (.error (.invalidChannel "empty id".toList), s)
    else
      let requests := unexpired now s
      let existingCodes := requests.map fun r => cm.upper r.code
      match requests.find? (fun r => r.id == id) with
      | some req =>
        let code := if req.code.isEmpty then generateUniqueCode rng existingCodes else req.code
        let idx := requests.findIdx (fun r => r.id == id)
        (.ok ⟨code, false⟩, { s with pairing := .json (requests.set idx (seenAgain now code metadata req)) })
      | none =>
        if PAIRING_PENDING_MAX ≤ requests.length then (.ok ⟨[], false⟩, s)
        else
          let code := generateUniqueCode rng existingCodes
          (.ok ⟨code, true⟩, { s with pairing := .json (requests ++ [⟨id, code, now, now, metadata⟩]) })

/-- The failed approvals inside the rate window. -/
def recentFailures (now : Nat) (failedAt : List Nat) : List Nat :=
  failedAt.filter fun t => now - PAIRING_APPROVE_RATE_WINDOW_SECS ≤ t

def isApproveRateLimited (now : Nat) (s : Files μ) : Except PairingStoreError Bool :=
  match safeChannelKey cm channel with
  | .error e => .error e
  | .ok _ => .ok (PAIRING_APPROVE_RATE_LIMIT ≤ (recentFailures now (s.approveAttempts.get [])).length)

def recordFailedApprove (now : Nat) (s : Files μ) : Except PairingStoreError Unit × Files μ :=
  match safeChannelKey cm channel with
  | .error e => (.error e, s)
  | .ok _ =>
    (.ok (), { s with approveAttempts := .json (recentFailures now (s.approveAttempts.get [] ++ [now])) })

def addAllowFrom (entry : Str) (s : Files μ) : Except PairingStoreError Unit × Files μ :=
  let entry := trim entry
  if entry.isEmpty then (.ok (), s)
  else
    match safeChannelKey cm channel with
    | .error e => (.error e, s)
    | .ok _ =>
      -- `truncate(true)`: the list is gone before it is read
      let s := { s with allowFrom := s.allowFrom.truncate }
      let allowFrom := s.allowFrom.get []
      if allowFrom.any (fun e => cm.lower e == cm.lower entry) then (.ok (), s)
      else (.ok (), { s with allowFrom := .json (allowFrom ++ [entry]) })

/-- The pending request that carries the code, and the requests left without it. -/
def pendingFor (now : Nat) (code : Str) (s : Files μ) : Option (PairingRequest μ × List (PairingRequest μ)) :=
  removeFirst (fun r => cm.upper r.code == cm.upper (trim code)) (unexpired now s)

def approve (now : Nat) (code : Str) (s : Files μ) :
    Except PairingStoreError (Option (PairingRequest μ)) × Files μ :=
  if (cm.upper (trim code)).isEmpty then (.ok none, s)
  else
    match isApproveRateLimited cm channel now s with
    | .error e => (.error e, s)
    | .ok true => (.error .approveRateLimited, s)
    | .ok false =>
      -- `create(false)`: a channel without a pairing file has nothing to approve
      if s.pairing.isMissing then (.error (.invalidChannel "no pairing file".toList), s)
      else
        match pendingFor cm now code s with
        | none =>
          match recordFailedApprove cm channel now s with
          | (.error e, s) => (.error e, s)
          | (.ok (), s) => (.ok none, s)
        | some (entry, rest) =>
          match addAllowFrom cm channel entry.id { s with pairing := .json rest } with
          | (.error e, s) => (.error e, s)
          | (.ok (), s) => (.ok (some entry), s)

def readAllowFrom (s : Files μ) : Except PairingStoreError (List Str) :=
  match safeChannelKey cm channel with
  | .error e => .error e
  | .ok _ => .ok (s.allowFrom.get [])

/-- A leading `@` of a user name is dropped. -/
def stripAt : Str → Str
  | '@' :: u => u
  | u => u

def isSenderAllowed (id : Str) (username : Option Str) (s : Files μ) : Except PairingStoreError Bool :=
  match readAllowFrom cm channel s with
  | .error e => .error e
  | .ok allow =>
    if allow.any (fun e => trim e == trim id) then .ok true
    else
      match username with
      | none => .ok false
      | some u =>
        let u := cm.lower (trim u)
        .ok (allow.any fun e => cm.lower (trim e) == u || cm.lower (trim e) == '@' :: stripAt u)

/-! ## Runs -/

/-- An operation, with the clock and the random choices it meets. -/
inductive Op (μ : Type)
  | upsertRequest (now : Nat) (rng : Rng) (id : Str) (metadata : Option μ)
  | listPending (now : Nat)
  | approve (now : Nat) (code : Str)
  | isSenderAllowed (id : Str) (username : Option Str)

/-- The files after an operation. -/
def step (s : Files μ) : Op μ → Files μ
  | .upsertRequest now rng id metadata => (upsertRequest cm channel now rng id metadata s).2
  | .listPending now => (listPending cm channel now s).2
  | .approve now code => (approve cm channel now code s).2
  | .isSenderAllowed _ _ => s

end Operations

end Ironclaw.Pairing
