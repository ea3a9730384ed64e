import Tether.Proofs.Chain.Upkeep
import Tether.Proofs.Chain.Vigil
import Tether.World.Links

/-!
# Dialers and watchers among the activities

The dialer and the watcher of a chain are activities among many, which wait for moments and work on a
network. What they do to their chain are runs of the dialer and of the watcher that their laws are
about: each step of the activity is a few events of such a run, or none.
-/

namespace Tether.Chain

theorem getElem?_modifyChain {w : World} {e : Endpoint} {c : ChainId} (known : w.chains[c]? = some e)
    (f : Endpoint → Endpoint) : (w.modifyChain c f).chains[c]? = some (f e) := by
  unfold World.modifyChain
  rw [Array.getElem?_modify, if_pos rfl, known]
  rfl

/-- Where a dialer stands, without the moments for which it waits. -/
def DialStage.upkeep : DialStage → Upkeep.Stage
  | dialing => .dialing
  | pausing _ => .pausing
  | greeting link _ => .greeting link
  | stitching k => .stitching k
  | linked k => .linked k

namespace Upkeep

/-- A dialer that has the chain, the settings and the memory of one in the world. The sums of the
world are not checked. -/
structure Knows (u : Upkeep) (w : World) (d : Dialing) : Prop where
  chain : w.chains[d.chain]? = some u.chain
  config : u.config = d.config
  checks : u.checks = false
  memory : u.memory = d.memory

/-- A dialer that also has come as far as the one in the world. -/
structure Shows (u : Upkeep) (w : World) (d : Dialing) : Prop extends u.Knows w d where
  stage : u.stage = d.stage.upkeep

/-- A dialer that has the chain of one in the world after a move of it, and has come as far. -/
def ShowsMove (u : Upkeep) (c : ChainId) : World.Move → Prop
  | (w, some (.dial d)) => d.chain = c ∧ u.Shows w d
  | (w, none) => w.chains[c]? = some u.chain ∧ (u.stage = .stopped ∨ u.stage = .crashed)
  | (_, some _) => False

variable {u : Upkeep} {w w' : World} {d : Dialing}

/-- The dialer in the world pauses, or crashes, as the dialer does. -/
theorem showsMove_pause (h : u.Knows w d) (resting : u.stage = .resting) :
    (u.step (.pause w.draws)).ShowsMove d.chain (w.pause d (d.memory.failures.getD 0)) := by
  obtain ⟨chain, config, checks, memory⟩ := h
  simp only [step, pause, resting, config, memory, World.pause]
  cases d.config.redialPause? (d.memory.failures.getD 0) w.draws with
  | none => exact ⟨chain, .inr rfl⟩
  | some span => exact ⟨rfl, ⟨chain, rfl, checks, rfl⟩, rfl⟩

theorem failures_of_retry {r memory : Redial} {a : Attempt} {failures : UInt32}
    (retries : r.conclude a = (memory, .retry failures)) : memory.failures = some failures := by
  unfold Redial.conclude Redial.retrying at retries
  split at retries
  · cases retries
  · cases retries
    rfl
  · cases retries
    rfl
  · split at retries <;> cases retries
    rfl

/-- What the dialer in the world does after an attempt is what it concludes, and then the pause, or
where it gives up, the whole of a kill. -/
theorem exists_showsMove_conclude (h : u.Knows w d) (a : Attempt) :
    ∃ events, ((u.conclude a {}).run events).ShowsMove d.chain (w.concludeAttempt d a) := by
  obtain ⟨chain, config, checks, same⟩ := h
  unfold conclude World.concludeAttempt
  rw [same]
  match concluded : d.memory.conclude a with
  | (memory, .retry failures) =>
    have known := failures_of_retry concluded
    refine ⟨[.pause w.draws], ?_⟩
    have goesOn : ¬ (u.checks = true ∧ failures = 0) := by simp [checks]
    simp only [goesOn, if_false]
    have shown := showsMove_pause (u := { u with
        memory, epoch := u.epochAfter a, stage := .resting }) (d := { d with memory })
      ⟨chain, config, checks, rfl⟩ rfl
    rwa [known, Option.getD_some] at shown
  | (memory, .giveUp e) =>
    refine ⟨[.kill, .kill], (getElem?_modifyChain chain _).trans (congrArg some ?_), .inl rfl⟩
    rfl
  | (memory, .attach seq link) =>
    refine ⟨[], ?_⟩
    simp only [World.attachLink, chain, run, List.foldl_nil, Wired.step, Wired.attach, Upkeep.chain]
    cases u.wired.chain.attach seq.toNat link with
    | mk e installed =>
      cases installed with
      | none => exact ⟨chain, .inl rfl⟩
      | some k => exact ⟨rfl, ⟨getElem?_modifyChain chain _, config, checks, rfl⟩, rfl⟩

/-- A dialer that sees its chain dead stops. -/
theorem showsMove_halt (chain : w.chains[d.chain]? = some u.chain) (dead : u.chain.killed = true)
    (place : u.stage = .pausing ∨ u.stage = .dialing ∨ (∃ link, u.stage = .greeting link) ∨
      ∃ k, u.stage = .linked k) :
    ShowsMove (u.run [.halt]) d.chain (w, none) := by
  have stopped : u.run [.halt] = { u with stage := .stopped } := by
    obtain pausing | dialing | ⟨link, greeting⟩ | ⟨k, linked⟩ := place
    · simp only [run, List.foldl_cons, List.foldl_nil, step, halt, pausing, dead, if_true]
    · simp only [run, List.foldl_cons, List.foldl_nil, step, halt, dialing, dead, if_true]
    · simp only [run, List.foldl_cons, List.foldl_nil, step, halt, greeting, dead, if_true]
    · simp only [run, List.foldl_cons, List.foldl_nil, step, halt, linked, dead, if_true]
  rw [stopped]
  exact ⟨chain, .inl rfl⟩

theorem exists_showsMove_dialNow (h : u.Knows w d) (dialing : u.stage = .dialing) (id : Id) :
    ∃ events, (u.run events).ShowsMove d.chain (w.dialNow d id) := by
  obtain ⟨chain, config, checks, memory⟩ := h
  unfold World.dialNow
  split
  · next network e _ =>
    have missed : u.step (.miss e) = u.conclude (.ofDialError e) {} := by
      simp only [step, miss, dialing]
    obtain ⟨events, shown⟩ := exists_showsMove_conclude (w := { w with network })
      ⟨chain, config, checks, memory⟩ (.ofDialError e)
    exact ⟨.miss e :: events, by rwa [run, List.foldl_cons, missed]⟩
  · next network pipe _ =>
    have dialed : u.step (.dial ⟨pipe, .near⟩) = { u with
        stage := .greeting ⟨pipe, .near⟩
        sent := u.sent ++ [⟨u.epoch, u.memory.attemptSeq.toNat⟩] } := by
      simp only [step, dial, dialing]
    dsimp only
    split
    · next network' _ =>
      refine ⟨[.dial ⟨pipe, .near⟩], ?_⟩
      rw [run, List.foldl_cons, List.foldl_nil, dialed]
      exact ⟨rfl, ⟨chain, config, checks, memory⟩, rfl⟩
    · next network' _ _ =>
      obtain ⟨events, shown⟩ := exists_showsMove_conclude (d := d)
        (w := { w with network := network' }.dropLink ⟨pipe, .near⟩)
        (u := { u with
          stage := .greeting ⟨pipe, .near⟩
          sent := u.sent ++ [⟨u.epoch, u.memory.attemptSeq.toNat⟩] })
        ⟨chain, config, checks, memory⟩ .failed
      refine ⟨.dial ⟨pipe, .near⟩ :: .fail :: events, ?_⟩
      rw [run, List.foldl_cons, List.foldl_cons, dialed]
      exact shown

theorem exists_showsMove_hearAnswer (h : u.Knows w d) {link : Link.End} (greeting : u.stage = .greeting link)
    {deadline : Nat} {m : World.Move} (heard : w.hearAnswer? d link deadline = some m) :
    ∃ events, (u.run events).ShowsMove d.chain m := by
  obtain ⟨chain, config, checks, memory⟩ := h
  have failed {w : World} (chain : w.chains[d.chain]? = some u.chain) :
      ∃ events, (u.run events).ShowsMove d.chain (w.concludeAttempt d .failed) := by
    have fails : u.step .fail = u.conclude .failed {} := by simp only [step, fail, greeting]
    obtain ⟨events, shown⟩ := exists_showsMove_conclude ⟨chain, config, checks, memory⟩ .failed
    exact ⟨.fail :: events, by rwa [run, List.foldl_cons, fails]⟩
  unfold World.hearAnswer? at heard
  split at heard
  · next network message _ =>
    have answered : u.step (.answer message {}) = u.conclude (.ofAnswer link message) {} := by
      simp only [step, answer, greeting]
    have concluded {w : World} (chain : w.chains[d.chain]? = some u.chain) : ∃ events,
        (u.run events).ShowsMove d.chain (w.concludeAttempt d (.ofAnswer link message)) := by
      obtain ⟨events, shown⟩ := exists_showsMove_conclude ⟨chain, config, checks, memory⟩
        (.ofAnswer link message)
      exact ⟨.answer message {} :: events, by rwa [run, List.foldl_cons, answered]⟩
    dsimp only at heard
    split at heard
    · next link' outcome =>
      cases heard
      rw [← outcome]
      exact concluded chain
    · cases heard
      exact concluded chain
  · cases heard
    exact failed chain
  · split at heard
    · cases heard
      exact failed chain
    · cases heard

theorem stitchLink?_eq_some {e : Endpoint} {c : ChainId} {k : LinkId} {linked : Bool}
    (known : w.chains[c]? = some e) (took : w.stitchLink? c k = some (w', linked)) :
    ∃ e', e.stitch? k = some e' ∧ w'.chains[c]? = some e' ∧
      linked = !decide (e'.stage k = .refused) := by
  unfold World.stitchLink? at took
  rw [known, Option.bind_some] at took
  obtain ⟨e', queued, took⟩ := Option.map_eq_some_iff.mp took
  have kept := getElem?_modifyChain known fun _ => e'
  refine ⟨e', queued, ?_⟩
  dsimp only at took
  split at took
  · next refused =>
    rw [decide_eq_true refused]
    split at took <;> cases took <;> exact ⟨kept, rfl⟩
  · next whole =>
    rw [decide_eq_false whole]
    cases took
    exact ⟨kept, rfl⟩

theorem showsMove_stitch (h : u.Knows w d) {k : LinkId} (stitching : u.stage = .stitching k)
    {linked : Bool} (took : w.stitchLink? d.chain k = some (w', linked)) :
    ShowsMove (u.run [.stitch]) d.chain
      (w', if linked then some (.dial { d with stage := .linked k }) else none) := by
  obtain ⟨chain, config, checks, memory⟩ := h
  obtain ⟨e, queued, kept, rfl⟩ := stitchLink?_eq_some chain took
  have went : u.run [.stitch] = { u with
      wired := u.wired.step (.stitch k)
      stage := if e.stage k = .refused then .stopped else .linked k } := by
    simp only [run, List.foldl_cons, List.foldl_nil, step, stitch, stitching, queued]
  have same : (u.wired.step (.stitch k)).chain = e := by
    have queued : u.wired.chain.stitch? k = some e := queued
    simp only [Wired.step, Wired.stitch, queued]
    split <;> rfl
  have shown := kept.trans (congrArg some same.symm)
  rw [went]
  by_cases refused : e.stage k = .refused
  · simp only [refused, decide_true, Bool.not_true, Bool.false_eq_true, if_true, if_false]
    exact ⟨shown, .inl rfl⟩
  · simp only [refused, decide_false, Bool.not_false, if_true, if_false]
    exact ⟨rfl, ⟨shown, config, checks, memory⟩, rfl⟩

/-- A step of the dialer in the world is a run of the dialer. -/
theorem exists_run_of_dialStep? (shows : u.Shows w d) {m : World.Move}
    (moved : w.dialStep? d = some m) : ∃ events, (u.run events).ShowsMove d.chain m := by
  obtain ⟨knows, stage⟩ := shows
  have chain := knows.chain
  unfold World.dialStep? at moved
  rw [chain] at moved
  dsimp only at moved
  split at moved
  · next dialing =>
    rw [dialing] at stage
    split at moved
    · next dead =>
      cases moved
      exact ⟨[.halt], showsMove_halt chain dead (.inr (.inl stage))⟩
    · cases moved
      exact exists_showsMove_dialNow knows stage _
  · next deadline pausing =>
    rw [pausing] at stage
    split at moved
    · next dead =>
      cases moved
      exact ⟨[.halt], showsMove_halt chain dead (.inl stage)⟩
    · split at moved
      · cases moved
        have resumed : u.run [.resume] = { u with stage := .dialing } := by
          simp only [run, List.foldl_cons, List.foldl_nil, step, resume, stage, DialStage.upkeep,
            knows.checks, Bool.false_eq_true, false_and, if_false]
        exact ⟨[.resume], resumed ▸ ⟨rfl, ⟨chain, knows.config, knows.checks, knows.memory⟩, rfl⟩⟩
      · cases moved
  · next link deadline greeting =>
    rw [greeting] at stage
    split at moved
    · next dead =>
      cases moved
      exact ⟨[.halt], showsMove_halt chain dead (.inr (.inr (.inl ⟨link, stage⟩)))⟩
    · exact exists_showsMove_hearAnswer knows stage moved
  · next k stitching =>
    rw [stitching] at stage
    obtain ⟨⟨w', linked⟩, took, same⟩ := Option.map_eq_some_iff.mp moved
    have shown := showsMove_stitch knows stage took
    subst same
    cases linked <;> exact ⟨[.stitch], shown⟩
  · next k linked =>
    rw [linked] at stage
    split at moved
    · next dead =>
      cases moved
      exact ⟨[.halt], showsMove_halt chain dead (.inr (.inr (.inr ⟨k, stage⟩)))⟩
    · split at moved
      · next gone =>
        cases moved
        have lost : u.step .lose = { u with stage := .resting } := by
          simp only [step, lose, stage, DialStage.upkeep, gone, if_true]
        refine ⟨[.lose, .pause w.draws], ?_⟩
        rw [run, List.foldl_cons, List.foldl_cons, List.foldl_nil, lost]
        exact showsMove_pause ⟨chain, knows.config, knows.checks, knows.memory⟩ rfl
      · cases moved

end Upkeep

namespace Vigil

variable {v : Vigil} {w : World} {l : World.ListenerId} {c : ChainId} {watch : Watch}

/-- A watcher that has the chain of one in the world after a move of it, and has come as far. -/
def ShowsMove (v : Vigil) (l : World.ListenerId) (c : ChainId) : World.Move → Prop
  | (w, some task) =>
    w.chains[c]? = some v.chain ∧ ∃ next, task = .watch l c next ∧ v.stage = .watching next
  | (w, none) => w.chains[c]? = some v.chain ∧ v.stage = .finished

theorem exists_branch {s : Watch.Step} {e : Endpoint} {now timeout : Nat}
    (taken : watch.step? e now timeout = some s) :
    ∃ branch, watch.take? e now timeout branch = some s := by
  obtain ⟨branch, -, ready⟩ := List.exists_of_findSome?_eq_some taken
  exact ⟨branch, ready⟩

/-- A step of the watcher in the world is a run of the watcher. -/
theorem exists_run_of_watchStep? {x : Listener} {timeout : Duration}
    (chain : w.chains[c]? = some v.chain) (listener : w.listeners[l]? = some x)
    (given : x.config.orphanTimeout = some timeout) (time : v.timeout = timeout.toMicros)
    (clock : v.clock = w.clock) (watching : v.stage = .watching watch) {m : World.Move}
    (moved : w.watchStep? l c watch = some m) :
    ∃ events, (v.run events).ShowsMove l c m := by
  simp only [World.watchStep?, chain, listener, given] at moved
  obtain ⟨s, taken, rfl⟩ := Option.map_eq_some_iff.mp moved
  obtain ⟨branch, ready⟩ := exists_branch taken
  rw [← clock, ← time] at ready
  cases s with
  | goOn next =>
    have went : v.run [.watch branch] = { v with stage := .watching next } := by
      simp only [run, List.foldl_cons, List.foldl_nil, step, Vigil.watch, watching, ready]
    exact ⟨[.watch branch], went ▸ ⟨chain, next, rfl, rfl⟩⟩
  | finished =>
    have went : v.run [.watch branch] = { v with stage := .finished } := by
      simp only [run, List.foldl_cons, List.foldl_nil, step, Vigil.watch, watching, ready]
    exact ⟨[.watch branch], went ▸ ⟨chain, rfl⟩⟩
  | orphaned =>
    have went : v.step (.watch branch) = { v with stage := .condemning (noted watch) } := by
      simp only [step, Vigil.watch, watching, ready]
    refine ⟨[.watch branch, .kill, .kill, .kill], ?_⟩
    rw [run, List.foldl_cons, went]
    exact ⟨getElem?_modifyChain chain _, rfl⟩

end Vigil

end Tether.Chain
