import RustKernel.Net.Tcp.SendLedger

/-!
# RustKernel.Net.Tcp.Removal

Bytes that acknowledgements remove from the send buffer. `handle_established` takes
`local_seq - send_len` for the number of the front of the buffer, as if everything buffered had been
transmitted, but one flush transmits at most `MSS` bytes of it.

## Main result

`removed_sent_iff`: every byte that an acknowledgement removes was the payload of a transmitted
segment, exactly when no acknowledgement covers more than one flush, or anything before the first
transmission (`Ledger.AcksSent`).

## Proof strategy

`Ledger.SentFront` is the invariant: from the first transmission on, the transmitted positions are
those before the end of one flush of the buffer.
-/

namespace RustKernel.Net.Tcp

open Lib

/-- An acknowledgement that is taken covers nothing, or bytes of the flush last transmitted. -/
def Ledger.AcksSent (t : Ledger) : SendEvent → Prop
  | .receive _ _ data => ∀ hdr ∈ TcpHeader.parse data, has hdr.flags RST = false →
      t.conn.state = .established → takesAck t.conn hdr = true →
        min (ackOffset t.conn hdr.ack) t.conn.sendBuf.length ≤ if t.sent = [] then 0 else MSS
  | _ => True

instance (t : Ledger) : DecidablePred t.AcksSent
  | .receive _ _ data => inferInstanceAs (Decidable (∀ hdr ∈ TcpHeader.parse data,
      has hdr.flags RST = false → t.conn.state = .established → takesAck t.conn hdr = true →
        min (ackOffset t.conn hdr.ack) t.conn.sendBuf.length ≤ if t.sent = [] then 0 else MSS))
  | .send _ _ => .isTrue trivial
  | .poll _ => .isTrue trivial
  | .setConfig _ => .isTrue trivial

/-- The number of positions, from the first one on, that were transmitted. -/
def Ledger.sentEnd (t : Ledger) : Nat :=
  if t.sent = [] then 0 else t.removed + min t.conn.sendBuf.length MSS

structure Ledger.SentFront (t : Ledger) : Prop where
  isOpen : t.conn.IsOpen
  configured : t.sent ≠ [] → t.cfg.isSome
  removed_le : t.removed ≤ t.sentEnd
  sent_iff : ∀ p, t.WasSent p ↔ p < t.sentEnd

/-- Nothing was dropped, and nothing will be as long as acknowledgements cover what was sent. A reset
    leaves nothing to acknowledge. -/
structure Ledger.Kept (t : Ledger) : Prop where
  dropped_eq : t.dropped = []
  front : t.SentFront ∨ t.conn.state = .closed

variable {t : Ledger} {e : SendEvent}

/-- The guard, read off the flushed buffer: what leaves the buffer was transmitted. -/
private theorem Ledger.SentFront.acksSent_iff (h : t.SentFront) :
    t.AcksSent e ↔ ∀ new buf, e.flushed t.conn = some (new, buf) →
      t.removed + goneBytes t new buf ≤ t.sentEnd := by
  cases e with
  | send now data =>
    refine iff_of_true trivial fun new buf hf => ?_
    rw [SendEvent.flushed] at hf
    split at hf
    · cases hf
      -- a send removes nothing
      rw [goneBytes_accepted]
      exact h.removed_le
    · cases hf
  | poll now =>
    refine iff_of_true trivial fun new buf hf => ?_
    rw [SendEvent.flushed] at hf
    split at hf
    · cases hf
      -- nor does a poll
      rw [goneBytes, Nat.add_zero, Nat.sub_self]
      exact h.removed_le
    · cases hf
  | receive now src data =>
    rw [Ledger.AcksSent, SendEvent.flushed]
    cases TcpHeader.parse data with
    | none => simp
    | some hdr =>
      simp only [Option.mem_def, Option.some.injEq, forall_eq']
      by_cases htakes : has hdr.flags RST = false ∧ t.conn.state = .established ∧
          takesAck t.conn hdr = true
      · obtain ⟨hrst, hstate, hack⟩ := htakes
        -- an acknowledgement that is taken removes the bytes it covers
        have hflush : (∀ new buf, some (0, t.conn.sendBuf.drop (ackedBytes t.conn hdr.ack)) =
            some (new, buf) → t.removed + goneBytes t new buf ≤ t.sentEnd) ↔
            t.removed + ackedBytes t.conn hdr.ack ≤ t.sentEnd := by
          constructor
          · intro hall
            have hle := hall _ _ rfl
            rwa [goneBytes_acked] at hle
          · rintro hle _ _ ⟨⟩
            rwa [goneBytes_acked]
        simp only [hrst, hstate, hack, and_self, if_true, true_implies, ← ackedBytes_eq]
        rw [hflush]
        have hle : ackedBytes t.conn hdr.ack ≤ t.conn.sendBuf.length := Nat.min_le_right _ _
        have hremoved := h.removed_le
        rw [Ledger.sentEnd] at hremoved ⊢
        split
        case isTrue hsent =>
          rw [if_pos hsent] at hremoved
          omega
        case isFalse => omega
      · -- one that is not taken leaves the buffer alone
        refine iff_of_true (fun hrst hstate hack => absurd ⟨hrst, hstate, hack⟩ htakes) ?_
        rw [if_neg htakes]
        rintro _ _ ⟨⟩
  | setConfig cfg =>
    simp [Ledger.AcksSent, SendEvent.flushed]

/-- The positions that a step removes were transmitted when they lie before `sentEnd`. -/
private theorem Ledger.SentFront.dropped_iff (h : t.SentFront) (gone : Nat) :
    ((List.range gone).map (t.removed + ·)).filter (fun p => ¬t.WasSent p) = [] ↔
      t.removed + gone ≤ t.sentEnd := by
  have hfilter : ((List.range gone).map (t.removed + ·)).filter (fun p => ¬t.WasSent p) = [] ↔
      ∀ i, i < gone → t.removed + i < t.sentEnd := by
    simp [List.filter_eq_nil_iff, h.sent_iff]
  have hle := h.removed_le
  rw [hfilter]
  constructor
  · intro hall
    cases gone with
    | zero => exact hle
    | succ gone => exact hall gone (Nat.lt_succ_self gone)
  · intro hend i hi
    omega

/-- Removing transmitted bytes and flushing what is left. -/
theorem Ledger.SentFront.flush (h : t.SentFront) {new : Nat} {buf : List UInt8} {tx : Tx}
    (hlen : buf.length ≤ t.conn.sendBuf.length + new) (hact : e.act t.cfg t.conn = (new, tx))
    (hopen : tx.1.IsOpen) (hflush : Flushes t.cfg t.conn buf tx)
    (hsent : t.removed + goneBytes t new buf ≤ t.sentEnd) : (t.step e).SentFront := by
  have hbuffered : goneBytes t new buf + buf.length = t.conn.sendBuf.length + new := by
    rw [goneBytes]
    omega
  have hnone : t.sent = [] → t.sentEnd = 0 := fun h => if_pos h
  have hsome : t.sent ≠ [] → t.sentEnd = t.removed + min t.conn.sendBuf.length MSS :=
    fun h => if_neg h
  rw [step_of_flushes hact hopen hflush]
  by_cases hcarried : t.cfg.isSome ∧ buf ≠ []
  · -- the segment carries on where the transmitted positions end, or before
    have hcovers : t.sentEnd ≤ t.removed + goneBytes t new buf + min buf.length MSS := by
      by_cases hempty : t.sent = []
      · rw [hnone hempty]
        exact Nat.zero_le _
      · rw [hsome hempty]
        omega
    rw [if_pos hcarried]
    have hend : t.removed + goneBytes t new buf + min buf.length MSS = Ledger.sentEnd
        { t with
          conn := tx.1
          removed := t.removed + goneBytes t new buf
          sent := t.sent ++ [(t.removed + goneBytes t new buf, min buf.length MSS)] } := by
      rw [Ledger.sentEnd, if_neg (List.append_ne_nil_of_right_ne_nil _ (List.cons_ne_nil _ _)),
        hflush.buf_eq]
    refine ⟨hopen, fun _ => config_isSome hcarried.1, ?_, fun p => ?_⟩
    · exact le_of_le_of_eq (Nat.le_add_right _ _) hend
    · refine Iff.trans ?_ (iff_of_eq (congrArg (p < ·) hend))
      have hsplit : (∃ s ∈ t.sent ++ [(t.removed + goneBytes t new buf, min buf.length MSS)],
          s.1 ≤ p ∧ p < s.1 + s.2) ↔ t.WasSent p ∨ t.removed + goneBytes t new buf ≤ p ∧
            p < t.removed + goneBytes t new buf + min buf.length MSS := by
        simp [Ledger.WasSent, or_and_right, exists_or]
      refine hsplit.trans ?_
      rw [h.sent_iff]
      omega
  · -- nothing is carried: the buffer was emptied, or nothing was ever transmitted
    rw [if_neg hcarried, List.append_nil]
    have hend : t.sentEnd = Ledger.sentEnd
        { t with conn := tx.1, removed := t.removed + goneBytes t new buf } := by
      by_cases hempty : t.sent = []
      · rw [hnone hempty, Ledger.sentEnd, if_pos hempty]
      · have hbuf : buf = [] := by
          by_contra hne
          exact hcarried ⟨h.configured hempty, hne⟩
        rw [hsome hempty] at hsent ⊢
        rw [Ledger.sentEnd, if_neg hempty, hflush.buf_eq, hbuf]
        rw [hbuf, List.length_nil] at hbuffered
        rw [hbuf] at hsent
        simp only [List.length_nil, Nat.zero_min, Nat.add_zero]
        omega
    exact ⟨hopen, fun hne => config_isSome (h.configured hne), le_of_le_of_eq hsent hend,
      fun p => (h.sent_iff p).trans (iff_of_eq (congrArg (p < ·) hend))⟩

/-- A connection that was reset flushes nothing. -/
private theorem flushed_of_closed (hclosed : t.conn.state = .closed) : e.flushed t.conn = none := by
  have hopen : ¬t.conn.IsOpen := by simp [TcpConn.IsOpen, hclosed]
  cases e with
  | send now data => exact if_neg fun h => hopen h.1
  | poll now => exact if_neg fun h => hopen h.1
  | receive now src data =>
    rw [SendEvent.flushed]
    split
    · rfl
    · simp [hclosed]
  | setConfig cfg => rfl

theorem Ledger.Kept.step (h : t.Kept) (hsent : t.AcksSent e) : (t.step e).Kept := by
  have hstate : t.conn.IsOpen ∨ t.conn.state = .closed := h.front.imp_left fun h => h.isOpen
  have heffect := act_effect t.cfg hstate e
  generalize hf : e.flushed t.conn = flushed at heffect
  generalize hact : e.act t.cfg t.conn = act at heffect
  cases heffect with
  | @flushes new buf tx hopen hflush =>
    rcases h.front with hfront | hclosed
    · have hend := hfront.acksSent_iff.mp hsent _ _ hf
      refine ⟨?_, .inl (hfront.flush (flushed_length_le hf) hact hopen hflush hend)⟩
      rw [step_of_flushes hact hopen hflush]
      exact List.append_eq_nil_iff.mpr ⟨h.dropped_eq, (hfront.dropped_iff _).mpr hend⟩
    · rw [flushed_of_closed hclosed] at hf
      cases hf
  | @quiet tx hopen hclosed hquiet =>
    rw [step_of_quiet hact hquiet]
    refine ⟨h.dropped_eq, h.front.imp (fun hfront => ?_) hclosed⟩
    have hend : t.sentEnd = Ledger.sentEnd { t with conn := tx.1 } := by
      rw [Ledger.sentEnd, Ledger.sentEnd, hquiet.buf_eq]
    exact ⟨hopen hfront.isOpen, fun hne => config_isSome (hfront.configured hne),
      le_of_le_of_eq hfront.removed_le hend,
      fun p => (hfront.sent_iff p).trans (iff_of_eq (congrArg (p < ·) hend))⟩
  | reset =>
    refine ⟨?_, .inr (by rw [step_conn, hact]; rfl)⟩
    rw [step_of_reset hact]
    exact h.dropped_eq

theorem Ledger.Kept.broken (h : t.Kept) (hunsent : ¬t.AcksSent e) : (t.step e).dropped ≠ [] := by
  rcases h.front with hfront | hclosed
  · have heffect := act_effect t.cfg (.inl hfront.isOpen) e
    rw [hfront.acksSent_iff] at hunsent
    push Not at hunsent
    obtain ⟨new, buf, hf, hlt⟩ := hunsent
    rw [hf] at heffect
    generalize hact : e.act t.cfg t.conn = act at heffect
    cases heffect with
    | flushes hopen hflush =>
      rw [step_of_flushes hact hopen hflush]
      intro hnil
      exact absurd ((hfront.dropped_iff _).mp (List.append_eq_nil_iff.mp hnil).2)
        (Nat.not_le.mpr hlt)
  · refine absurd ?_ hunsent
    cases e with
    | receive now src data =>
      intro hdr _ _ hstate
      cases hstate.symm.trans hclosed
    | send | poll | setConfig => trivial

/-- No byte is removed before it was transmitted exactly when acknowledgements cover what was sent. -/
theorem removed_sent_iff (cfg : Option NetConfig) (conn : TcpConn)
    (hstate : conn.state = .established) (es : List SendEvent) :
    (∀ t ∈ states Ledger.step (.start cfg conn) es, t.dropped = []) ↔
      ∀ p ∈ steps Ledger.step (.start cfg conn) es, p.1.AcksSent p.2 := by
  refine guardedRun_iff Ledger.step Ledger.Kept _ (fun _ => True) _ (fun t h => h.dropped_eq)
    (fun t e h _ hsent => h.step hsent) (fun t e h _ hunsent => h.broken hunsent) _ es ?_
    fun _ _ => trivial
  refine ⟨rfl, .inl ⟨.inl hstate, absurd rfl, Nat.zero_le _, ?_⟩⟩
  simp [Ledger.WasSent, Ledger.sentEnd, Ledger.start]

/-- A byte that is acknowledged after it was transmitted. -/
theorem acknowledged_byte_sent :
    let es := [.send 0 [1], Sample.acknowledge 1]
    (∀ p ∈ steps Ledger.step (.start (some Sample.cfg) Sample.conn) es, p.1.AcksSent p.2) ∧
      ∀ t ∈ states Ledger.step (.start (some Sample.cfg) Sample.conn) es, t.dropped = [] := by
  intro es
  have hguard : ∀ p ∈ steps Ledger.step (.start (some Sample.cfg) Sample.conn) es,
      p.1.AcksSent p.2 := by decide +kernel
  exact ⟨hguard, (removed_sent_iff (some Sample.cfg) Sample.conn rfl es).mpr hguard⟩

/-- Of 600 bytes the first 536 are transmitted; their acknowledgement removes all 600. -/
theorem acknowledgement_drops_unsent :
    ¬∀ t ∈ states Ledger.step (.start (some Sample.cfg) Sample.conn)
      [.send 0 (List.replicate 600 7), Sample.acknowledge 536], t.dropped = [] := by
  decide +kernel

end RustKernel.Net.Tcp
