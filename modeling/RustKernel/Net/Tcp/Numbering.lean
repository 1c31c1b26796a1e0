import RustKernel.Net.Tcp.SendLedger

/-!
# RustKernel.Net.Tcp.Numbering

Sequence numbers and accepted bytes. `flush_send` goes through `send_segment`, which numbers what it
transmits, whereas `check_retransmit` goes through `send_segment_raw`, which does not. So a flush of
bytes that were flushed before consumes their sequence numbers again.

## Main result

`consumed_once_iff`: on a connection that stays established and accepts fewer than 2^32 bytes, the
sequence number is never ahead of the accepted bytes and no byte gets a second number, exactly when
every flush is of bytes not numbered before (`Ledger.FlushesNew`).

## Proof strategy

`Ledger.Numbered` is the invariant: the numbered bytes are the removed ones and one flush of the
buffer. A step outside `FlushesNew` numbers the front of the buffer again at once.
-/

namespace RustKernel.Net.Tcp

open Lib

/-- At most one sequence number for each accepted byte, and none for a byte that has one. -/
def Ledger.ConsumedOnce (start : UInt32) (t : Ledger) : Prop :=
  (t.conn.localSeq - start).toNat ≤ t.accepted ∧ t.renumbered = false

/-- A flush finds bytes that were not numbered before: new bytes and polls meet an empty buffer, and
    an acknowledgement covers what one flush of the buffer has numbered. -/
def Ledger.FlushesNew (t : Ledger) : SendEvent → Prop
  | .send _ data => acceptable t.conn data ≠ 0 → t.conn.sendBuf = []
  | .poll _ => t.conn.sendBuf = []
  | .receive _ _ data => ∀ hdr ∈ TcpHeader.parse data, has hdr.flags RST = false →
      takesAck t.conn hdr = true → min t.conn.sendBuf.length MSS ≤ ackOffset t.conn hdr.ack
  | .setConfig _ => True

instance (t : Ledger) : DecidablePred t.FlushesNew
  | .send _ data => inferInstanceAs (Decidable (acceptable t.conn data ≠ 0 → t.conn.sendBuf = []))
  | .poll _ => inferInstanceAs (Decidable (t.conn.sendBuf = []))
  | .receive _ _ data => inferInstanceAs (Decidable (∀ hdr ∈ TcpHeader.parse data,
      has hdr.flags RST = false → takesAck t.conn hdr = true →
        min t.conn.sendBuf.length MSS ≤ ackOffset t.conn hdr.ack))
  | .setConfig _ => .isTrue trivial

instance (start : UInt32) : DecidablePred (Ledger.ConsumedOnce start) :=
  fun t => inferInstanceAs (Decidable (_ ∧ t.renumbered = false))

structure Ledger.Numbered (start : UInt32) (t : Ledger) : Prop where
  established : t.conn.state = .established
  accepted_eq : t.removed + t.conn.sendBuf.length = t.accepted
  accepted_lt : t.accepted < 2 ^ 32
  numbered_eq : t.conn.sendBuf ≠ [] → t.numbered = t.removed + min t.conn.sendBuf.length MSS
  numbered_le : t.numbered ≤ t.accepted
  seq_eq : ∃ advance, advance ≤ t.numbered ∧ t.conn.localSeq = start + UInt32.ofNat advance
  not_renumbered : t.renumbered = false

variable {start : UInt32} {t : Ledger} {e : SendEvent}

private theorem Ledger.Numbered.consumedOnce (h : t.Numbered start) : t.ConsumedOnce start := by
  obtain ⟨advance, hle, hseq⟩ := h.seq_eq
  refine ⟨?_, h.not_renumbered⟩
  have hlt : advance < 2 ^ 32 :=
    calc advance ≤ t.numbered := hle
      _ ≤ t.accepted := h.numbered_le
      _ < 2 ^ 32 := h.accepted_lt
  rw [hseq, UInt32.add_comm, UInt32.add_sub_cancel, UInt32.toNat_ofNat', Nat.mod_eq_of_lt hlt]
  exact hle.trans h.numbered_le

/-- The step does not leave what the claim is about. -/
def Ledger.StaysSmall (t : Ledger) (e : SendEvent) : Prop :=
  (t.step e).conn.state = .established ∧ (t.step e).accepted < 2 ^ 32

/-- The guard, read off the flushed buffer: nothing is flushed, or what is flushed lies behind
    the numbered bytes. -/
private theorem Ledger.Numbered.flushesNew_iff (h : t.Numbered start) :
    t.FlushesNew e ↔ ∀ new buf, e.flushed t.conn = some (new, buf) → buf = [] ∨
      t.numbered ≤ t.removed + goneBytes t new buf := by
  have hopen : t.conn.IsOpen := .inl h.established
  -- with bytes buffered, the front of the buffer is numbered
  have hfront : t.conn.sendBuf ≠ [] → t.removed < t.numbered := by
    intro hne
    have hpos : 0 < t.conn.sendBuf.length := List.length_pos_of_ne_nil hne
    rw [h.numbered_eq hne, MSS]
    omega
  have hempty : t.conn.sendBuf = [] → t.numbered ≤ t.removed := by
    intro hnil
    have hle := h.numbered_le
    rw [← h.accepted_eq, hnil] at hle
    exact hle
  cases e with
  | send now data =>
    by_cases hacc : acceptable t.conn data = 0
    · simp [Ledger.FlushesNew, SendEvent.flushed, hacc]
    -- nothing leaves the buffer, and its front is new when it was empty
    have hne : t.conn.sendBuf ++ data.take (acceptable t.conn data) ≠ [] := by
      have hpos : 0 < data.length := lt_of_lt_of_le (Nat.pos_of_ne_zero hacc) (Nat.min_le_left _ _)
      have hdata : data ≠ [] := List.ne_nil_of_length_pos hpos
      simp [hacc, hdata]
    rw [Ledger.FlushesNew, SendEvent.flushed, if_pos ⟨hopen, hacc⟩]
    constructor
    · rintro hnil _ _ ⟨⟩
      exact .inr ((hempty (hnil hacc)).trans (Nat.le_add_right _ _))
    · intro hall _
      by_contra hbuf
      have hold := (hall _ _ rfl).resolve_left hne
      rw [goneBytes_accepted] at hold
      exact absurd (hfront hbuf) (Nat.not_lt.mpr hold)
  | poll now =>
    rw [Ledger.FlushesNew, SendEvent.flushed]
    by_cases hnil : t.conn.sendBuf = []
    · simp [hnil]
    rw [if_pos ⟨hopen, hnil⟩]
    refine iff_of_false hnil fun hall => ?_
    have hold := (hall _ _ rfl).resolve_left hnil
    rw [goneBytes, Nat.add_zero, Nat.sub_self] at hold
    exact absurd (hfront hnil) (Nat.not_lt.mpr hold)
  | receive now src data =>
    rw [Ledger.FlushesNew, SendEvent.flushed]
    cases TcpHeader.parse data with
    | none => simp
    | some hdr =>
      simp only [Option.mem_def, Option.some.injEq, forall_eq', h.established, true_and]
      by_cases htakes : has hdr.flags RST = false ∧ takesAck t.conn hdr = true
      · rw [if_pos htakes]
        have hdrop : t.conn.sendBuf.drop (ackedBytes t.conn hdr.ack) = [] ↔
            t.conn.sendBuf.length ≤ ackedBytes t.conn hdr.ack := List.drop_eq_nil_iff
        have hflush : (∀ new buf, some (0, t.conn.sendBuf.drop (ackedBytes t.conn hdr.ack)) =
            some (new, buf) → buf = [] ∨ t.numbered ≤ t.removed + goneBytes t new buf) ↔
            t.conn.sendBuf.length ≤ ackedBytes t.conn hdr.ack ∨
              t.numbered ≤ t.removed + ackedBytes t.conn hdr.ack := by
          constructor
          · intro hall
            have hor := hall _ _ rfl
            rwa [hdrop, goneBytes_acked] at hor
          · rintro hor _ _ ⟨⟩
            rwa [hdrop, goneBytes_acked]
        rw [hflush, ackedBytes_eq]
        simp only [htakes.1, htakes.2, true_implies]
        by_cases hnil : t.conn.sendBuf = []
        · simp [hnil]
        · rw [h.numbered_eq hnil]
          omega
      · rw [if_neg htakes]
        refine iff_of_true (fun hrst hack => absurd ⟨hrst, hack⟩ htakes) ?_
        rintro _ _ ⟨⟩
  | setConfig cfg =>
    simp [Ledger.FlushesNew, SendEvent.flushed]

/-- Flushing a buffer whose front is new: its bytes get the next numbers. -/
theorem Ledger.Numbered.flush (h : t.Numbered start) {new : Nat} {buf : List UInt8} {tx : Tx}
    (hlen : buf.length ≤ t.conn.sendBuf.length + new) (hact : e.act t.cfg t.conn = (new, tx))
    (hopen : tx.1.IsOpen) (hflush : Flushes t.cfg t.conn buf tx) (hsmall : t.StaysSmall e)
    (hnew : buf = [] ∨ t.numbered ≤ t.removed + goneBytes t new buf) :
    (t.step e).Numbered start := by
  obtain ⟨hstate, hlt⟩ := hsmall
  have haccepted : t.removed + goneBytes t new buf + buf.length = t.accepted + new := by
    rw [← h.accepted_eq, goneBytes]
    omega
  have hnumbers : min buf.length MSS ≤ buf.length := Nat.min_le_left _ _
  have hle := h.numbered_le
  rw [step_conn, hact] at hstate
  rw [step_of_flushes hact hopen hflush] at hlt ⊢
  obtain ⟨advance, hadvance, hseq⟩ := h.seq_eq
  -- the numbers given out again are the ones the flush gives out
  have hahead : advance + min buf.length MSS ≤
      max t.numbered (t.removed + goneBytes t new buf + min buf.length MSS) := by
    rcases hnew with rfl | hnew
    · exact hadvance.trans (Nat.le_max_left _ _)
    · exact (Nat.add_le_add_right (hadvance.trans hnew) _).trans (Nat.le_max_right _ _)
  refine ⟨hstate, ?_, hlt, ?_, ?_, ⟨advance + min buf.length MSS, hahead, ?_⟩, ?_⟩
  · rw [hflush.buf_eq]
    exact haccepted
  · intro hne
    rw [hflush.buf_eq] at hne ⊢
    exact Nat.max_eq_right ((hnew.resolve_left hne).trans (Nat.le_add_right _ _))
  · refine Nat.max_le.mpr ⟨hle.trans (Nat.le_add_right _ _), ?_⟩
    rw [← haccepted]
    exact Nat.add_le_add_left hnumbers _
  · rw [hflush.seq_eq, hseq, UInt32.ofNat_add, UInt32.add_assoc]
  · simp only [h.not_renumbered, Bool.false_or, Bool.and_eq_false_iff, decide_eq_false_iff_not,
      Nat.not_lt]
    rcases hnew with rfl | hnew
    · exact .inl (Nat.min_le_left _ _)
    · exact .inr hnew

theorem Ledger.Numbered.step (h : t.Numbered start) (hsmall : t.StaysSmall e)
    (hnew : t.FlushesNew e) : (t.step e).Numbered start := by
  have heffect := act_effect t.cfg (.inl (.inl h.established)) e
  have hflushed := h.flushesNew_iff.mp hnew
  generalize hf : e.flushed t.conn = flushed at heffect hflushed
  generalize hact : e.act t.cfg t.conn = act at heffect
  cases heffect with
  | flushes hopen hflush =>
    exact h.flush (flushed_length_le hf) hact hopen hflush hsmall (hflushed _ _ rfl)
  | quiet _ _ hquiet =>
    obtain ⟨hstate, hlt⟩ := hsmall
    obtain ⟨advance, hadvance, hseq⟩ := h.seq_eq
    have hremoved : t.removed ≤ t.accepted := by
      rw [← h.accepted_eq]
      exact Nat.le_add_right _ _
    rw [step_conn, hact] at hstate
    rw [step_of_quiet hact hquiet] at hlt ⊢
    refine ⟨hstate, ?_, hlt, ?_, Nat.max_le.mpr ⟨h.numbered_le, hremoved⟩,
      ⟨advance, hadvance.trans (Nat.le_max_left _ _), hquiet.seq_eq.trans hseq⟩, h.not_renumbered⟩
    · rw [hquiet.buf_eq]
      exact h.accepted_eq
    · intro hne
      rw [hquiet.buf_eq] at hne ⊢
      rw [h.numbered_eq hne]
      exact Nat.max_eq_left (Nat.le_add_right _ _)
  -- a reset would end in a closed slot, which the guard excludes
  | reset =>
    have hstate := hsmall.1
    rw [step_conn, hact] at hstate
    cases hstate

/-- A flush of numbered bytes numbers them again. -/
theorem Ledger.Numbered.broken (h : t.Numbered start) (hold : ¬t.FlushesNew e) :
    ¬(t.step e).ConsumedOnce start := by
  have heffect := act_effect t.cfg (.inl (.inl h.established)) e
  rw [h.flushesNew_iff] at hold
  push Not at hold
  obtain ⟨new, buf, hf, hne, hlt⟩ := hold
  rw [hf] at heffect
  generalize hact : e.act t.cfg t.conn = act at heffect
  cases heffect with
  | flushes hopen hflush =>
    rintro ⟨-, honce⟩
    have hpos : 0 < min buf.length MSS := Nat.lt_min.mpr ⟨List.length_pos_of_ne_nil hne, by decide⟩
    rw [step_of_flushes hact hopen hflush] at honce
    simp [hpos, hlt] at honce

/-- The bytes of a connection are numbered at most once exactly when no flush repeats them. -/
theorem consumed_once_iff (cfg : Option NetConfig) (conn : TcpConn)
    (hstate : conn.state = .established) (hbuf : conn.sendBuf = []) (es : List SendEvent)
    (hrun : ∀ t ∈ states Ledger.step (.start cfg conn) es,
      t.conn.state = .established ∧ t.accepted < 2 ^ 32) :
    (∀ t ∈ states Ledger.step (.start cfg conn) es, t.ConsumedOnce conn.localSeq) ↔
      ∀ p ∈ steps Ledger.step (.start cfg conn) es, p.1.FlushesNew p.2 := by
  refine guardedRun_iff_of_legal Ledger.step (Ledger.Numbered conn.localSeq) _ Ledger.StaysSmall _
    (fun t h => h.consumedOnce) (fun t e h hsmall hnew => h.step hsmall hnew)
    (fun t e h _ hold => h.broken hold) _ es ?_ fun p hp => hrun _ (step_mem_states hp)
  have hsmall : (Ledger.start cfg conn).accepted < 2 ^ 32 := Nat.two_pow_pos 32
  refine ⟨hstate, ?_, hsmall, absurd hbuf, Nat.le_refl 0, ⟨0, Nat.le_refl 0, ?_⟩, rfl⟩
  · simp [Ledger.start, hbuf]
  · simp [Ledger.start]

/-! ### Two runs -/

/-- Each byte is acknowledged before the next one is sent. -/
theorem acknowledged_bytes_once :
    let es := [.send 0 [1], Sample.acknowledge 1, .send 1 [2]]
    (∀ p ∈ steps Ledger.step (.start (some Sample.cfg) Sample.conn) es, p.1.FlushesNew p.2) ∧
      ∀ t ∈ states Ledger.step (.start (some Sample.cfg) Sample.conn) es, t.ConsumedOnce 0 := by
  intro es
  have hguard : ∀ p ∈ steps Ledger.step (.start (some Sample.cfg) Sample.conn) es,
      p.1.FlushesNew p.2 := by decide +kernel
  exact ⟨hguard, (consumed_once_iff (some Sample.cfg) Sample.conn rfl rfl es
    (by decide +kernel)).mpr hguard⟩

/-- One byte and a poll before its acknowledgement: two sequence numbers. -/
theorem poll_numbers_again :
    let run := states Ledger.step (.start (some Sample.cfg) Sample.conn) [.send 0 [1], .poll 1]
    (∀ t ∈ run, t.conn.state = .established ∧ t.accepted < 2 ^ 32) ∧
      ¬∀ t ∈ run, (t.conn.localSeq - Sample.conn.localSeq).toNat ≤ t.accepted := by
  decide +kernel

end RustKernel.Net.Tcp
