import AwsLc.DtlsHandshake
import AwsLc.Runs

/-!
# Whole runs of the DTLS handshake receiver

A run interleaves records, `dtls1_get_message`, `dtls1_next_message` and key changes.
`HandshakeRun` adds to the state what an observer sees: the numbers of the messages reported, the
fragments received, and how many messages were consumed.
-/

namespace AwsLc

open AwsLc.Runs UInt16 DtlsHandshakeState Option

variable {κ : Type}

inductive HandshakeEvent (κ : Type) where
  | openHandshake (env : HandshakeEnv) (packet : Bytes)
  | openChangeCipherSpec (env : HandshakeEnv) (packet : Bytes)
  | getMessage
  | nextMessage
  | setReadState (aeadCtx : SslAeadContext κ)

structure HandshakeRun (κ : Type) where
  ssl : DtlsHandshakeState κ
  /-- the numbers of the messages reported by `dtls1_get_message`, each once -/
  delivered : List UInt16
  /-- the fragments received inside the window, in order -/
  received : List (HmHeader × Bytes)
  /-- the number of calls of `dtls1_next_message` -/
  consumed : Nat

open HandshakeRun

def DtlsHandshakeState.observe (ssl : DtlsHandshakeState κ) : HandshakeRun κ :=
  { ssl, delivered := [], received := [], consumed := 0 }

/-- The fragments of a record that the loop body handled to its end and that were
    in the window, which does not move during the loop. -/
def handledFragments (env : HandshakeEnv) (ssl : DtlsHandshakeState κ) (type : UInt8)
    (record : Bytes) : List (HmHeader × Bytes) :=
  if type = SSL3_RT_HANDSHAKE then
    (processedFragments env record.length ssl record).filter
      fun fragment => !outsideWindow ssl.handshakeReadSeq fragment.1.seq
  else []

def receivedFragments (env : HandshakeEnv) (ssl : DtlsHandshakeState κ) (packet : Bytes) :
    List (HmHeader × Bytes) :=
  match dtlsOpenRecord ssl.toDtlsReadState packet with
  | (.success type record, _, read) =>
    handledFragments env { ssl with toDtlsReadState := read } type record
  | _ => []

/-- One call.  `dtls1_next_message` and `dtls1_set_read_state` are undefined where
    one of their assertions fails. -/
def HandshakeRun.step (run : HandshakeRun κ) : HandshakeEvent κ → Option (HandshakeRun κ)
  | .openHandshake env packet =>
    some { run with
      ssl := (dtls1OpenHandshake env run.ssl packet).2.2
      received := run.received ++ receivedFragments env run.ssl packet }
  | .openChangeCipherSpec env packet =>
    some { run with
      ssl := (dtls1OpenChangeCipherSpec env run.ssl packet).2.2
      received := run.received ++
        if run.ssl.hasChangeCipherSpec then [] else receivedFragments env run.ssl packet }
  | .getMessage =>
    match dtls1GetMessage run.ssl with
    | none => some run
    | some (_, ssl) =>
      -- The message callback runs on the first report only.
      let reported := if run.ssl.hasMessage then []
        else ((run.ssl.incomingMessages (ringIndex run.ssl.handshakeReadSeq)).map
          HmFragment.seq).toList
      some { run with ssl, delivered := run.delivered ++ reported }
  | .nextMessage =>
    (dtls1NextMessage run.ssl).map fun ssl => { run with ssl, consumed := run.consumed + 1 }
  | .setReadState aeadCtx =>
    (dtls1SetReadState run.ssl aeadCtx).map fun result => { run with ssl := result.2 }

/-- The receiver as `DTLS1_STATE` is constructed. -/
structure DtlsHandshakeState.Fresh (ssl : DtlsHandshakeState κ) : Prop where
  readSeq_eq : ssl.handshakeReadSeq = 0
  slots_eq : ∀ i, ssl.incomingMessages i = none
  message_eq : ssl.hasMessage = false

def DtlsHandshakeState.Reachable (ssl : DtlsHandshakeState κ) : Prop :=
  ∃ (fresh : DtlsHandshakeState κ) (events : List (HandshakeEvent κ)) (final : HandshakeRun κ),
    fresh.Fresh ∧ run step fresh.observe events = some final ∧ final.ssl = ssl

/-! ### The ring and the order of delivery -/

variable {ssl : DtlsHandshakeState κ}

theorem DtlsHandshakeState.Fresh.ring (hfresh : ssl.Fresh) : ssl.Ring := by
  refine ⟨?_, ?_⟩
  · intro i frag hslot
    rw [hfresh.slots_eq i] at hslot
    cases hslot
  · intro hmessage
    rw [hfresh.message_eq] at hmessage
    cases hmessage

/-- The assertion of `dtls_has_unprocessed_handshake_data` holds. -/
theorem hasUnprocessedFrom_ne_none (hring : ssl.Ring) (slots : List (Fin SSL_MAX_HANDSHAKE_FLIGHT))
    : hasUnprocessedFrom ssl slots ≠ none := by
  induction slots with
  | nil => simp [hasUnprocessedFrom]
  | cons i rest ih =>
    unfold hasUnprocessedFrom
    split
    · rename_i hcurrent
      rwa [if_pos (hring.message hcurrent.1)]
    · split
      · simp
      · exact ih

theorem HandshakeRun.step_setReadState (before : HandshakeRun κ) (hring : before.ssl.Ring)
    (aeadCtx : SslAeadContext κ) : ∃ ssl',
      before.step (.setReadState aeadCtx) = some { before with ssl := ssl' } ∧
        SameRing before.ssl ssl' := by
  obtain ⟨unprocessed, hunprocessed⟩ :=
    ne_none_iff_exists'.mp (hasUnprocessedFrom_ne_none hring (List.finRange _))
  simp only [step, dtls1SetReadState, dtlsHasUnprocessedHandshakeData]
  rw [hunprocessed]
  cases unprocessed with
  | true => exact ⟨_, rfl, ⟨rfl, rfl, rfl⟩⟩
  | false => exact ⟨_, rfl, ⟨rfl, rfl, rfl⟩⟩

variable {before : HandshakeRun κ}

/-- **One call keeps the ring.** -/
theorem HandshakeRun.step_ring {after : HandshakeRun κ} {event : HandshakeEvent κ}
    (hring : before.ssl.Ring) (hstep : before.step event = some after) : after.ssl.Ring := by
  cases event with
  | openHandshake env packet =>
    cases hstep
    exact (dtls1OpenHandshake_ring hring env packet).1
  | openChangeCipherSpec env packet =>
    cases hstep
    exact (dtls1OpenChangeCipherSpec_ring hring env packet).1
  | getMessage =>
    simp only [step] at hstep
    split at hstep
    · cases hstep
      exact hring
    · rename_i hget
      cases hstep
      exact dtls1GetMessage_ring hring hget
  | nextMessage =>
    obtain ⟨ssl, hnext, rfl⟩ := map_eq_some_iff.mp hstep
    exact dtls1NextMessage_ring hring hnext
  | setReadState aeadCtx =>
    obtain ⟨ssl', hset, hsame⟩ := before.step_setReadState hring aeadCtx
    cases hset.symm.trans hstep
    exact hring.congr hsame

theorem DtlsHandshakeState.Reachable.ring (h : ssl.Reachable) : ssl.Ring := by
  obtain ⟨fresh, events, final, hfresh, hrun, rfl⟩ := h
  exact run_induct (fun r : HandshakeRun κ => r.ssl.Ring) (fun _ => True)
    (fun _ _ _ hring _ hstep => step_ring hring hstep)
    (fun _ _ => trivial) hfresh.ring hrun

variable {ssl' : DtlsHandshakeState κ}

theorem dtls1ProcessFragment_frame (hring : ssl.Ring) {env : HandshakeEnv} {hdr : HmHeader}
    {body : Bytes} (hbody : body.length = hdr.fragLen)
    (hok : dtls1ProcessFragment env ssl hdr body = .ok ssl') :
    ssl'.handshakeReadSeq = ssl.handshakeReadSeq ∧ ssl'.hasMessage = ssl.hasMessage := by
  rcases dtls1ProcessFragment_cases hring env hbody with
    ⟨alert, herror⟩ | ⟨-, hsame⟩ | ⟨_, _, _, _, _, _, _, _, _, _, hset⟩
  · rw [herror] at hok
    cases hok
  · rw [hsame] at hok
    cases hok
    exact ⟨rfl, rfl⟩
  · rw [hset] at hok
    cases hok
    exact ⟨rfl, rfl⟩

section OpenRule

variable (inv : DtlsHandshakeState κ → List (HmHeader × Bytes) → Prop)
  (hframe : ∀ ssl ssl' log, SameRing ssl ssl' → inv ssl log → inv ssl' log)
  (hstep : ∀ env ssl log hdr body ssl', ssl.Ring → inv ssl log → body.length = hdr.fragLen →
    dtls1ProcessFragment env ssl hdr body = .ok ssl' →
    inv ssl' (log ++ if outsideWindow ssl.handshakeReadSeq hdr.seq then [] else [(hdr, body)]))
  (env : HandshakeEnv) {ssl : DtlsHandshakeState κ} (packet : Bytes)
  (log : List (HmHeader × Bytes)) (hring : ssl.Ring) (hinv : inv ssl log)
include hframe hstep hring hinv

theorem dtls1HandleRecord_induct (type : UInt8) (record : Bytes) :
    inv (dtls1HandleRecord env ssl type record).2
      (log ++ handledFragments env ssl type record) := by
  have hloop := (dtls1ProcessFragments_induct env
    (fun s processed => s.Ring ∧ s.handshakeReadSeq = ssl.handshakeReadSeq ∧
      inv s (log ++ processed.filter
        fun fragment => !outsideWindow ssl.handshakeReadSeq fragment.1.seq))
    (fun _ => True) trivial
    (by
      rintro s processed hdr body s' ⟨hs, hseq, hlog⟩ hbody hok
      refine ⟨dtls1ProcessFragment_ring hs hbody hok,
        (dtls1ProcessFragment_frame hs hbody hok).1.trans hseq, ?_⟩
      have hnext := hstep env s _ hdr body s' hs hlog hbody hok
      rw [hseq, List.append_assoc] at hnext
      rw [List.filter_append]
      convert hnext using 3
      cases hwindow : outsideWindow ssl.handshakeReadSeq hdr.seq <;> simp [hwindow])
    (fun _ _ _ _ _ _ _ _ => trivial) record.length record ssl []
    ⟨hring, rfl, by simpa using hinv⟩).1.2.2
  rw [List.nil_append] at hloop
  unfold dtls1HandleRecord handledFragments
  by_cases hhandshake : type = SSL3_RT_HANDSHAKE
  · subst hhandshake
    rw [if_neg (by decide), if_neg (by decide), if_pos rfl, if_pos rfl]
    split
    all_goals
      rename_i hresult
      rw [hresult] at hloop
      exact hloop
  · rw [if_neg hhandshake, if_neg hhandshake, List.append_nil]
    split_ifs
    all_goals first | exact hinv | exact hframe ssl _ log ⟨rfl, rfl, rfl⟩ hinv

/-- **The rule for a record.**  What depends only on the ring and is kept by each
    fragment, logged if it is in the window, is kept by `dtls1_open_handshake`. -/
theorem dtls1OpenHandshake_induct :
    inv (dtls1OpenHandshake env ssl packet).2.2 (log ++ receivedFragments env ssl packet) := by
  unfold dtls1OpenHandshake receivedFragments
  rcases dtlsOpenRecord ssl.toDtlsReadState packet with ⟨ret, consumed, read⟩
  have hsame : SameRing ssl { ssl with toDtlsReadState := read } := ⟨rfl, rfl, rfl⟩
  have hread := hframe ssl _ log hsame hinv
  cases ret with
  | success type record =>
    exact dtls1HandleRecord_induct inv hframe hstep env log (hring.congr hsame) hread type record
  | discard | partialRecord | closeNotify | error alert =>
    rw [List.append_nil]
    exact hread

theorem dtls1OpenChangeCipherSpec_induct : inv (dtls1OpenChangeCipherSpec env ssl packet).2.2
      (log ++ if ssl.hasChangeCipherSpec then [] else receivedFragments env ssl packet) := by
  have hopen := dtls1OpenHandshake_induct inv hframe hstep env packet log hring hinv
  unfold dtls1OpenChangeCipherSpec
  by_cases hccs : ssl.hasChangeCipherSpec = true
  · simp only [hccs, Bool.not_true, Bool.false_eq_true, if_false, ne_eq, not_true_eq_false,
      if_true, List.append_nil]
    exact hframe ssl _ log ⟨rfl, rfl, rfl⟩ hinv
  · simp only [hccs, Bool.not_false, if_true, Bool.false_eq_true, if_false]
    split_ifs
    · exact hopen
    · exact hframe (dtls1OpenHandshake env ssl packet).2.2 _ _ ⟨rfl, rfl, rfl⟩ hopen
    · exact hopen

end OpenRule

/-- Reading a record moves neither the counter nor the flag. -/
theorem dtls1OpenHandshake_frame (hring : ssl.Ring) (env : HandshakeEnv) (packet : Bytes) :
    ((dtls1OpenHandshake env ssl packet).2.2.handshakeReadSeq = ssl.handshakeReadSeq ∧
      (dtls1OpenHandshake env ssl packet).2.2.hasMessage = ssl.hasMessage) ∧
    (dtls1OpenChangeCipherSpec env ssl packet).2.2.handshakeReadSeq = ssl.handshakeReadSeq ∧
      (dtls1OpenChangeCipherSpec env ssl packet).2.2.hasMessage = ssl.hasMessage := by
  let inv (s : DtlsHandshakeState κ) (_ : List (HmHeader × Bytes)) : Prop :=
    s.handshakeReadSeq = ssl.handshakeReadSeq ∧ s.hasMessage = ssl.hasMessage
  have hframe : ∀ s s' log, SameRing s s' → inv s log → inv s' log :=
    fun _ _ _ hsame h => ⟨hsame.readSeq.trans h.1, hsame.message.trans h.2⟩
  have hstep : ∀ env s log hdr body s', s.Ring → inv s log → body.length = hdr.fragLen →
      dtls1ProcessFragment env s hdr body = .ok s' →
      inv s' (log ++ if outsideWindow s.handshakeReadSeq hdr.seq then [] else [(hdr, body)]) := by
    intro env s log hdr body s' hs hsame hbody hok
    obtain ⟨hseq, hmessage⟩ := dtls1ProcessFragment_frame hs hbody hok
    exact ⟨hseq.trans hsame.1, hmessage.trans hsame.2⟩
  exact ⟨dtls1OpenHandshake_induct inv hframe hstep env packet [] hring ⟨rfl, rfl⟩,
    dtls1OpenChangeCipherSpec_induct inv hframe hstep env packet [] hring ⟨rfl, rfl⟩⟩

theorem dtls1GetMessage_eq_some {msg : SslMessage} (hget : dtls1GetMessage ssl = some (msg, ssl')) :
    dtls1IsCurrentMessageComplete ssl = true ∧ ssl' = { ssl with hasMessage := true } := by
  unfold dtls1GetMessage at hget
  split at hget
  · rename_i frag hslot
    split at hget
    · rename_i hcomplete
      simp only [some.injEq, Prod.mk.injEq] at hget
      exact ⟨by simpa [dtls1IsCurrentMessageComplete, hslot] using hcomplete, hget.2.symm⟩
    · cases hget
  · cases hget

theorem dtls1NextMessage_eq_some (hnext : dtls1NextMessage ssl = some ssl') :
    ssl.hasMessage = true ∧ ssl'.handshakeReadSeq = ssl.handshakeReadSeq + 1 ∧
      ssl'.hasMessage = false ∧ ssl'.incomingMessages =
        Function.update ssl.incomingMessages (ringIndex ssl.handshakeReadSeq) none := by
  unfold dtls1NextMessage at hnext
  split_ifs at hnext with hmessage hcomplete
  cases hnext
  exact ⟨by simpa using hmessage, rfl, rfl, rfl⟩

/-- `dtls1_get_message` and `dtls1_next_message` on a complete current message that
    was not reported before. -/
theorem run_get_next {start : HandshakeRun κ} {frag : HmFragment}
    (hslot : start.ssl.incomingMessages (ringIndex start.ssl.handshakeReadSeq) = some frag)
    (hcomplete : frag.reassembly = none) (hmessage : start.ssl.hasMessage = false) :
    run step start [.getMessage, .nextMessage] = some
      { start with
        ssl := { start.ssl with
          incomingMessages := Function.update start.ssl.incomingMessages
            (ringIndex start.ssl.handshakeReadSeq) none
          handshakeReadSeq := start.ssl.handshakeReadSeq + 1
          hasMessage := false
          flightHasReply := start.ssl.outgoingMessagesComplete || start.ssl.flightHasReply }
        delivered := start.delivered ++ [frag.seq]
        consumed := start.consumed + 1 } := by
  simp [run_cons, step, dtls1GetMessage, hslot, hcomplete, hmessage,
    dtls1NextMessage, dtls1IsCurrentMessageComplete, setIncoming]

/-- The messages reported are numbered from zero: those consumed, and the current
    one once it has been reported. -/
structure HandshakeRun.Ordered (run : HandshakeRun κ) : Prop where
  ring : run.ssl.Ring
  readSeq_eq : run.ssl.handshakeReadSeq = ofNat run.consumed
  delivered_eq : run.delivered =
    (List.range (run.consumed + if run.ssl.hasMessage then 1 else 0)).map ofNat

theorem HandshakeRun.Ordered.congr {after : HandshakeRun κ} (hordered : before.Ordered)
    (hring : after.ssl.Ring) (hseq : after.ssl.handshakeReadSeq = before.ssl.handshakeReadSeq)
    (hmessage : after.ssl.hasMessage = before.ssl.hasMessage)
    (hconsumed : after.consumed = before.consumed) (hdelivered : after.delivered = before.delivered)
    : after.Ordered := by
  refine ⟨hring, ?_, ?_⟩
  · rw [hseq, hconsumed, hordered.readSeq_eq]
  · rw [hdelivered, hconsumed, hmessage, hordered.delivered_eq]

theorem DtlsHandshakeState.Ring.current_seq (hring : ssl.Ring) {frag : HmFragment}
    (hslot : ssl.incomingMessages (ringIndex ssl.handshakeReadSeq) = some frag) :
    frag.seq = ssl.handshakeReadSeq :=
  (hring.slot _ frag hslot).1.eq
    ⟨UInt16.le_refl _, Nat.lt_add_of_pos_right (by decide), rfl⟩

theorem HandshakeRun.step_ordered {after : HandshakeRun κ} {event : HandshakeEvent κ}
    (hordered : before.Ordered) (hstep : before.step event = some after) : after.Ordered := by
  have hring := hordered.ring
  have hring' := step_ring hring hstep
  cases event with
  | openHandshake env packet =>
    cases hstep
    obtain ⟨⟨hseq, hmessage⟩, -⟩ := dtls1OpenHandshake_frame hring env packet
    exact hordered.congr hring' hseq hmessage rfl rfl
  | openChangeCipherSpec env packet =>
    cases hstep
    obtain ⟨-, hseq, hmessage⟩ := dtls1OpenHandshake_frame hring env packet
    exact hordered.congr hring' hseq hmessage rfl rfl
  | getMessage =>
    simp only [step] at hstep
    split at hstep
    · cases hstep
      exact hordered
    · rename_i msg ssl hget
      obtain ⟨hcomplete, rfl⟩ := dtls1GetMessage_eq_some hget
      cases hstep
      refine ⟨hring', hordered.readSeq_eq, ?_⟩
      dsimp only
      rw [hordered.delivered_eq]
      cases hmessage : before.ssl.hasMessage with
      | true => simp
      | false =>
        unfold dtls1IsCurrentMessageComplete at hcomplete
        split at hcomplete
        · rename_i frag hslot
          rw [hslot, map_some, hring.current_seq hslot, hordered.readSeq_eq]
          simp [List.range_succ]
        · cases hcomplete
  | nextMessage =>
    obtain ⟨ssl, hnext, rfl⟩ := map_eq_some_iff.mp hstep
    obtain ⟨hmessage, hseq, hmessage', -⟩ := dtls1NextMessage_eq_some hnext
    refine ⟨hring', ?_, ?_⟩
    · dsimp only
      rw [hseq, hordered.readSeq_eq, ofNat_add]
      rfl
    · dsimp only
      rw [hordered.delivered_eq, hmessage, hmessage']
      simp
  | setReadState aeadCtx =>
    obtain ⟨ssl', hset, hsame⟩ := before.step_setReadState hring aeadCtx
    cases hset.symm.trans hstep
    exact hordered.congr hring' hsame.readSeq hsame.message rfl rfl

theorem HandshakeRun.ordered_of_run {fresh : DtlsHandshakeState κ} (hfresh : fresh.Fresh)
    {events : List (HandshakeEvent κ)} {final : HandshakeRun κ}
    (hrun : run step fresh.observe events = some final) : final.Ordered := by
  refine run_induct HandshakeRun.Ordered (fun _ => True)
    (fun _ _ _ hordered _ hstep => step_ordered hordered hstep)
    (fun _ _ => trivial) ⟨hfresh.ring, hfresh.readSeq_eq, ?_⟩ hrun
  simp [observe, hfresh.message_eq]

/-- Numbers below `2 ^ 16` are not folded together by the 16-bit counter. -/
theorem pairwise_lt_map_ofNat_range {n : Nat} (hn : n ≤ 2 ^ 16) :
    ((List.range n).map ofNat).Pairwise (· < ·) := by
  rw [List.pairwise_map]
  refine List.pairwise_lt_range.imp_of_mem ?_
  intro a b ha hb hlt
  have ha' := List.mem_range.mp ha
  have hb' := List.mem_range.mp hb
  rw [lt_iff_toNat_lt, toNat_ofNat_of_lt' (Nat.lt_of_lt_of_le ha' hn),
    toNat_ofNat_of_lt' (Nat.lt_of_lt_of_le hb' hn)]
  exact hlt

/-- **The receive ring over whole runs.**  In every state reached from a fresh receiver: each
    occupied slot holds a number of the window that belongs there; whatever record comes next, no
    assertion of the receiver fails; and the messages reported so far are numbered consecutively
    from zero modulo `2 ^ 16`, hence in strictly increasing order until the counter wraps. -/
theorem handshake_ring_reachable {fresh : DtlsHandshakeState κ} (hfresh : fresh.Fresh)
    {events : List (HandshakeEvent κ)} {final : HandshakeRun κ}
    (hrun : run step fresh.observe events = some final) :
    (∀ i frag, final.ssl.incomingMessages i = some frag →
      final.ssl.handshakeReadSeq.toNat ≤ frag.seq.toNat ∧
      frag.seq.toNat < final.ssl.handshakeReadSeq.toNat + SSL_MAX_HANDSHAKE_FLIGHT ∧
      frag.seq.toNat % SSL_MAX_HANDSHAKE_FLIGHT = i) ∧
    (∀ env packet, (dtls1OpenHandshake env final.ssl packet).1 ≠ .assertionFailed) ∧
    final.delivered = (List.range final.delivered.length).map ofNat ∧
    (final.delivered.length ≤ 2 ^ 16 → final.delivered.Pairwise (· < ·)) := by
  have hordered := ordered_of_run hfresh hrun
  have hdelivered : final.delivered =
      (List.range final.delivered.length).map ofNat := by
    rw [hordered.delivered_eq, List.length_map, List.length_range]
  refine ⟨?_, fun env packet => (dtls1OpenHandshake_ring hordered.ring env packet).2,
    hdelivered, ?_⟩
  · intro i frag hslot
    obtain ⟨hin, -⟩ := hordered.ring.slot i frag hslot
    exact ⟨le_iff_toNat_le.mp hin.lower, hin.upper, hin.index⟩
  · intro hlength
    rw [hdelivered]
    exact pairwise_lt_map_ofNat_range hlength

/-! ### The counter wraps -/

/-- A receiver that has delivered `n` messages, each in its own record, and waits for the next. -/
structure DtlsHandshakeState.Idle (ssl : DtlsHandshakeState κ) (n : Nat) : Prop where
  not_closed : ssl.readShutdown ≠ .closeNotify
  null_cipher : ssl.aeadReadCtx.isNullCipher = true
  epoch_eq : ssl.rEpoch = 0
  top_eq : ssl.bitmap.maxSeqNum.toNat = n
  readSeq_eq : ssl.handshakeReadSeq = ofNat n
  slots_eq : ssl.incomingMessages = fun _ => none
  message_eq : ssl.hasMessage = false

/-- The record number `n` of epoch zero. -/
def recordSequence (n : Nat) : Vector UInt8 8 :=
  #v[0, 0, 0, 0, 0, UInt8.ofNat (n / 65536), UInt8.ofNat (n / 256), UInt8.ofNat n]

theorem toU64Be_recordSequence {n : Nat} (hn : n < 2 ^ 24) :
    (toU64Be (recordSequence n)).toNat = n := by
  rw [toU64Be_toNat]
  simp [recordSequence, BigEndian.beNat]
  omega

def emptyMessage (n : Nat) : HmHeader :=
  { type := 0, msgLen := 0, seq := ofNat n, fragOff := 0, fragLen := 0 }

def emptyMessageRecord (n : Nat) : Bytes :=
  dtlsEncodeRecord SSL3_RT_HANDSHAKE DTLS1_2_VERSION (recordSequence (n + 1))
    (emptyMessage n).encode

def emptyFragment (n : Nat) : HmFragment :=
  { type := 0, seq := ofNat n, msgLen := 0, data := hmMessageHeader 0 0 (ofNat n)
    reassembly := none }

def emptyMessageEnv : HandshakeEnv :=
  { malloc := fun _ => some fun _ => 0, maxHandshakeMessageLen := 0 }

/-- An idle receiver takes the record of the next message, which is complete as
    soon as its fragment is created. -/
theorem dtls1OpenHandshake_emptyMessage {n : Nat} (hidle : ssl.Idle n) (hn : n + 1 < 2 ^ 24) :
    ∃ consumed,
      dtls1OpenHandshake emptyMessageEnv ssl (emptyMessageRecord n) =
        (.success, consumed, setIncoming { ssl with
          bitmap := dtls1BitmapRecord ssl.bitmap (recordSequence (n + 1))
          warningAlertCount := 0 } (ringIndex (ofNat n)) (some (emptyFragment n))) := by
  have hfresh : ssl.bitmap.maxSeqNum < toU64Be (recordSequence (n + 1)) := by
    rw [UInt64.lt_iff_toNat_lt, hidle.top_eq, toU64Be_recordSequence hn]
    exact Nat.lt_succ_self n
  obtain ⟨consumed, hopen⟩ := dtlsOpenRecord_null hidle.not_closed hidle.null_cipher
    (show DTLS1_2_VERSION >>> 8 = DTLS1_VERSION_MAJOR by decide)
    (show SSL3_RT_HANDSHAKE ≠ SSL3_RT_ALERT by decide)
    (by rw [hidle.epoch_eq]; simp [recordSequence]) hfresh
    (show ((emptyMessage n).encode ++ []).length ≤ SSL3_RT_MAX_PLAIN_LENGTH by
      rw [List.append_nil, HmHeader.length_encode]; decide)
  have hwindow : outsideWindow (ofNat n) (ofNat n) = false := by
    simp [outsideWindow, SSL_MAX_HANDSHAKE_FLIGHT]
  have hprocess : dtls1ProcessFragment emptyMessageEnv { ssl with
      bitmap := dtls1BitmapRecord ssl.bitmap (recordSequence (n + 1)), warningAlertCount := 0 }
      (emptyMessage n) [] = .ok (setIncoming { ssl with
        bitmap := dtls1BitmapRecord ssl.bitmap (recordSequence (n + 1))
        warningAlertCount := 0 } (ringIndex (ofNat n)) (some (emptyFragment n))) := by
    simp [emptyFragment, dtls1ProcessFragment, dtls1GetIncomingMessage, dtls1HmFragmentNew,
      emptyMessage, emptyMessageEnv, HmFragment.receive, hidle.epoch_eq, hidle.readSeq_eq,
      hidle.slots_eq, hwindow, setIncoming]
  have hhandle := dtls1HandleRecord_single (show (emptyMessage n).Fits from
    ⟨Nat.two_pow_pos 24, Nat.two_pow_pos 24, Nat.two_pow_pos 24⟩) rfl hprocess
  refine ⟨consumed, ?_⟩
  have hrecord : emptyMessageRecord n = dtlsEncodeRecord SSL3_RT_HANDSHAKE DTLS1_2_VERSION
      (recordSequence (n + 1)) ((emptyMessage n).encode ++ []) := by
    rw [List.append_nil, emptyMessageRecord]
  rw [dtls1OpenHandshake, hrecord, hopen]
  dsimp only
  rw [hhandle]

/-- The three calls that deliver message `n`. -/
def deliverEmpty (n : Nat) : List (HandshakeEvent κ) :=
  [.openHandshake emptyMessageEnv (emptyMessageRecord n), .getMessage, .nextMessage]

theorem run_deliverEmpty {start : HandshakeRun κ} {n : Nat} (hidle : start.ssl.Idle n)
    (hn : n + 1 < 2 ^ 24) : ∃ final, run step start (deliverEmpty n) = some final ∧
      final.ssl.Idle (n + 1) ∧ final.delivered = start.delivered ++ [ofNat n] := by
  obtain ⟨consumed, hopen⟩ := dtls1OpenHandshake_emptyMessage hidle hn
  have hnumber := toU64Be_recordSequence hn
  have hfresh : start.ssl.bitmap.maxSeqNum < toU64Be (recordSequence (n + 1)) := by
    rw [UInt64.lt_iff_toNat_lt, hidle.top_eq, hnumber]
    exact Nat.lt_succ_self n
  obtain ⟨opened, hstep, hssl, hdelivered⟩ : ∃ opened : HandshakeRun κ,
      start.step (.openHandshake emptyMessageEnv (emptyMessageRecord n)) = some opened ∧
      opened.ssl = setIncoming { start.ssl with
        bitmap := dtls1BitmapRecord start.ssl.bitmap (recordSequence (n + 1))
        warningAlertCount := 0 } (ringIndex (ofNat n)) (some (emptyFragment n)) ∧
      opened.delivered = start.delivered :=
    ⟨_, rfl, congrArg (fun result => result.2.2) hopen, rfl⟩
  have hslot : opened.ssl.incomingMessages (ringIndex opened.ssl.handshakeReadSeq) =
      some (emptyFragment n) := by
    simp [hssl, setIncoming, hidle.readSeq_eq]
  have hnext := run_get_next hslot rfl (by rw [hssl]; exact hidle.message_eq)
  refine ⟨_, by rw [deliverEmpty, run_cons, hstep]; exact hnext, ?_, by rw [hdelivered]; rfl⟩
  rw [hssl]
  refine ⟨hidle.not_closed, hidle.null_cipher, hidle.epoch_eq,
    (congrArg UInt64.toNat (dtls1BitmapRecord_maxSeqNum hfresh)).trans hnumber, ?_, ?_, rfl⟩
  · dsimp only [setIncoming]
    rw [hidle.readSeq_eq, ofNat_add]
    rfl
  · dsimp only [setIncoming]
    rw [hidle.readSeq_eq, Function.update_idem, hidle.slots_eq]
    exact Function.update_eq_self _ _

theorem exists_run_deliverEmpty {fresh : DtlsHandshakeState κ} (hidle : fresh.Idle 0) (n : Nat)
    (hn : n < 2 ^ 24) : ∃ events final, run step fresh.observe events = some final ∧
      final.ssl.Idle n ∧ final.delivered = (List.range n).map ofNat := by
  induction n with
  | zero => exact ⟨[], fresh.observe, rfl, hidle, rfl⟩
  | succ n ih =>
    obtain ⟨events, middle, hrun, hmiddle, hdelivered⟩ := ih (Nat.lt_of_succ_lt hn)
    obtain ⟨final, hrun', hfinal, hdelivered'⟩ := run_deliverEmpty hmiddle hn
    refine ⟨events ++ deliverEmpty n, final, ?_, hfinal, ?_⟩
    · rw [run_append, hrun]
      exact hrun'
    · rw [hdelivered', hdelivered, List.range_succ, List.map_append]
      rfl

def freshReceiver : DtlsHandshakeState Unit where
  readShutdown := .none
  aeadReadCtx := SslAeadContext.createNullCipher EvpAead.unset () true
  haveVersion := false
  version := 0
  warningAlertCount := 0
  rEpoch := 0
  bitmap := {}
  hasChangeCipherSpec := false
  handshakeReadSeq := 0
  incomingMessages := fun _ => none
  hasMessage := false
  outgoingMessagesComplete := false
  flightHasReply := false

theorem freshReceiver_fresh : freshReceiver.Fresh := ⟨rfl, fun _ => rfl, rfl⟩

theorem freshReceiver_idle : freshReceiver.Idle 0 :=
  ⟨by decide, rfl, rfl, rfl, rfl, rfl, rfl⟩

/-- The first message is delivered, and the second one is in its slot. -/
theorem handshake_ring_second_message :
    ∃ final, run step freshReceiver.observe
        (deliverEmpty 0 ++ [.openHandshake emptyMessageEnv (emptyMessageRecord 1)]) = some final ∧
      final.delivered = [0] ∧ final.delivered.Pairwise (· < ·) ∧
      (final.ssl.incomingMessages (ringIndex 1) = some (emptyFragment 1) ∧
        final.ssl.handshakeReadSeq.toNat ≤ (emptyFragment 1).seq.toNat) ∧
      ∀ env packet, (dtls1OpenHandshake env final.ssl packet).1 ≠ .assertionFailed := by
  obtain ⟨middle, hrun, hidle, hdelivered⟩ :=
    run_deliverEmpty (show freshReceiver.observe.ssl.Idle 0 from freshReceiver_idle) (by decide)
  obtain ⟨consumed, hopen⟩ := dtls1OpenHandshake_emptyMessage hidle (by decide)
  obtain ⟨final, hstep, hssl, hfinal⟩ : ∃ final : HandshakeRun Unit,
      middle.step (.openHandshake emptyMessageEnv (emptyMessageRecord 1)) = some final ∧
      final.ssl.incomingMessages (ringIndex 1) = some (emptyFragment 1) ∧
      final.delivered = middle.delivered := by
    refine ⟨_, rfl, ?_, rfl⟩
    simp [hopen, setIncoming]
  have hrun' : run step freshReceiver.observe
      (deliverEmpty 0 ++ [.openHandshake emptyMessageEnv (emptyMessageRecord 1)]) = some final := by
    rw [run_append, hrun, Option.bind_some, run_singleton, hstep]
  obtain ⟨hslots, hassert, -, horder⟩ := handshake_ring_reachable freshReceiver_fresh hrun'
  have hall : final.delivered = [0] := hfinal.trans hdelivered
  exact ⟨final, hrun', hall, horder (by rw [hall]; decide), ⟨hssl, (hslots _ _ hssl).1⟩, hassert⟩

/-- **The order is not strict for ever.**  After 65536 messages the counter wraps,
    and the next message reported is again number zero. -/
theorem handshake_delivery_wraps :
    ∃ (fresh : DtlsHandshakeState Unit) (events : List (HandshakeEvent Unit))
      (final : HandshakeRun Unit), fresh.Fresh ∧ run step fresh.observe events = some final ∧
      ¬ final.delivered.Pairwise (· < ·) := by
  obtain ⟨events, final, hrun, -, hdelivered⟩ :=
    exists_run_deliverEmpty freshReceiver_idle 65537 (by decide)
  refine ⟨freshReceiver, events, final, freshReceiver_fresh, hrun, ?_⟩
  rw [hdelivered, List.pairwise_map]
  intro hpairwise
  have hlt := List.pairwise_iff_getElem.mp hpairwise 0 65536 (by simp) (by simp) (by decide)
  simp at hlt

end AwsLc
