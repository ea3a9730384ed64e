import Tether.Proofs.Session.Ending

/-!
# A connection ends only if a user closes it

An abort sets out from a side at which the connection has ended. So of a connection that both sides
know and that neither user has closed, no side is ever told the end: the first to be told would have
been told by a side that had been told before.
-/

namespace Tether.Session

namespace Party

/-- No end was heard of a connection that both sides know and neither user has closed. -/
def Untold (p q : Party) : Prop :=
  ∀ k l id, p.state.id? k = some id → q.state.id? l = some id → k ∉ p.closes → l ∉ q.closes →
    p.told q id = []

variable {p p' q q' : Party} {k l : ConnKey} {id : ConnId}

namespace Untold

/-- One side goes on without a new connection, and hears nothing. -/
theorem of_grows (h : p.Untold q) (grows : p.Grows p') (closes : p.closes <+: p'.closes)
    (heard : p'.heard = p.heard) : p'.Untold q := by
  intro k l id known known' held held'
  rw [told, heard]
  exact h k l id ((grows.ids k).symm.trans known) known' (fun mem => held (closes.subset mem)) held'

/-- The other side goes on without a new connection. -/
theorem of_peer (h : p.Untold q) (hears : p.Hears q) (grows : q.Grows q')
    (closes : q.closes <+: q'.closes) : p.Untold q' := by
  intro k l id known known' held held'
  rw [told_congr rfl hears.heard_le grows.sent]
  exact h k l id known ((grows.ids l).symm.trans known') held fun mem => held' (closes.subset mem)

/-- A connection is dialed that the peer does not know. -/
theorem dials (h : p.Untold q) (unknown : ∀ k, q.state.id? k ≠ some ⟨p.state.nextId⟩) :
    p.dials.Untold q := by
  intro k l id known known' held held'
  rw [id?_dials] at known
  split at known
  · cases known
    exact absurd known' (unknown l)
  · exact h k l id known known' held held'

theorem dials_peer (h : p.Untold q) (unknown : ∀ k, p.state.id? k ≠ some ⟨q.state.nextId⟩) :
    p.Untold q.dials := by
  intro k l id known known' held held'
  rw [id?_dials] at known'
  split at known'
  · cases known'
    exact absurd known (unknown k)
  · exact h k l id known known' held held'

section Hear

variable {bytes : Bytes} {e : Envelope} {data : Bytes}

/-- Who tells of an end has heard of it before, unless its own user has closed the connection. -/
theorem hear (h : p.Untold q) (back : q.Untold p) (listed : q.state.Listed)
    (parting : q.Parting p) (ending : q.Ending p) (found : q.sent[p.heard]? = some bytes)
    (read : Envelope.unpacked bytes = .ok e)
    (heard : p'.heard = p.heard + 1) (ids : ∀ k, p'.state.id? k = p.state.id? k)
    (closes : p'.closes = p.closes) : p'.Untold q := by
  intro k l id known known' held held'
  rw [ids] at known
  rw [closes] at held
  have before := h k l _ known known' held held'
  rw [told_succ found read heard, before, List.nil_append]
  cases one : e.abort? id with
  | none => rfl
  | some reason =>
    have said : p'.told q id ≠ [] := by
      rw [told_succ found read heard, one]
      exact List.append_ne_nil_of_right_ne_nil _ nofun
    obtain ⟨c, conn, rfl⟩ := Option.map_eq_some_iff.mp known'
    obtain opened | closed | told := (ending.conns conn).cause
    · exact absurd (listed.holds known' ⟨c, conn, opened⟩) (parting.shut (parts_of_told said))
    · exact absurd closed held'
    · exact absurd (back l k _ known' known held' held) told

/-- The first payload of a connection is heard before any end of it. -/
theorem opens (h : p.Untold q) (parting : q.Parting p) (found : q.sent[p.heard]? = some bytes)
    (read : Envelope.unpacked bytes = .ok e) (content : e.content = .payload 0 data) :
    (p.opens e.conn data).Untold q := by
  intro k l id known known' held held'
  rw [told_succ found read rfl, Envelope.abort?, content, Option.toList_none, List.append_nil]
  rw [id?_opens] at known
  split at known
  · cases known
    refine Decidable.not_not.mp fun said => ?_
    have none' := payload?_of_told parting found read said
    rw [Envelope.payload?, content] at none'
    simp at none'
  · exact h k l id known known' held held'

/-- And nothing of it was told before. -/
theorem opens_peer (h : p.Untold q) (parting : q.Parting p) (silent : q.came p e.conn = [])
    (new : ∀ k, q.state.id? k ≠ some e.conn) : p.Untold (q.opens e.conn data) := by
  intro k l id known known' held held'
  rw [id?_opens] at known'
  split at known'
  · cases known'
    refine Decidable.not_not.mp fun said => ?_
    obtain some' | ⟨j, known''⟩ := parting.spent (parts_of_told said)
    · exact some' silent
    · exact new j known''
  · exact h k l id known known' held held'

end Hear

end Untold

/-- A connection that neither user has closed is open. -/
theorem Ending.isOpen (h : p.Ending q) (untold : p.Untold q) (known : p.state.id? k = some id)
    (known' : q.state.id? l = some id) (held : k ∉ p.closes) (held' : l ∉ q.closes) :
    p.state.Open k := by
  obtain ⟨c, conn, rfl⟩ := Option.map_eq_some_iff.mp known
  obtain opened | closed | told := (h.conns conn).cause
  · exact ⟨c, conn, opened⟩
  · exact absurd closed held
  · exact absurd (untold k l _ known known' held held') told

end Party

end Tether.Session
