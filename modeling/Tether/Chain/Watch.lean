import Tether.Chain.Endpoint

/-!
# Watching for orphans

An accepted chain whose dialer does not come back is given up. The watcher looks at the current link
and waits for its retirement, then notes how many attachments were announced so far, looks once more
for a live link, and waits for a further announcement, at most for the time it was given. Links come
and go between these looks.
-/

namespace Tether.Chain

/-- Where the watcher of a chain stands. -/
inductive Watch where
  /-- It is about to look for the current link. -/
  | looking
  /-- It waits for a link to be retired. -/
  | linked (link : LinkId)
  /-- It is about to note how many attachments were announced. -/
  | noting
  /-- It has noted that many, and is about to look for a live link. -/
  | noted (announced : Nat)
  /-- It waits for an announcement after the given number of them, until a moment. -/
  | waiting (announced : Nat) (deadline : Nat)
  deriving DecidableEq, Repr

/-- What the watcher does next. -/
inductive Watch.Step where
  | goOn (w : Watch)
  /-- The chain is dead. -/
  | finished
  /-- The time is over: the chain is an orphan. -/
  | orphaned
  deriving DecidableEq, Repr

/-- What lets the watcher go on. -/
inductive Watch.Branch where
  /-- It waits for nothing. -/
  | look
  | killed
  | retired
  | announced
  | expired
  deriving DecidableEq, Repr

namespace Watch

/-- The step that the watcher takes by a branch, if the branch is ready. -/
def take? (e : Endpoint) (now timeout : Nat) : Watch → Branch → Option Step
  | looking, .look =>
    match e.current with
    | some k => some (.goOn (linked k))
    | none => some (.goOn noting)
  | linked _, .killed => if e.killed then some .finished else none
  | linked k, .retired => if e.retired k then some (.goOn noting) else none
  | noting, .look => some (.goOn (noted e.announced))
  | noted announced, .look =>
    if e.hasLiveLink then some (.goOn looking)
    else some (.goOn (waiting announced (now + timeout)))
  | waiting _ _, .killed => if e.killed then some .finished else none
  | waiting announced _, .announced =>
    if announced < e.announced then some (.goOn looking) else none
  | waiting _ deadline, .expired => if deadline ≤ now then some .orphaned else none
  | _, _ => none

/-- The order in which the branches are tried. -/
def branches : List Branch :=
  [.look, .killed, .retired, .announced, .expired]

/-- The next step of the watcher, if it can take one now. -/
def step? (e : Endpoint) (now timeout : Nat) (w : Watch) : Option Step :=
  branches.findSome? (w.take? e now timeout)

end Watch

end Tether.Chain
