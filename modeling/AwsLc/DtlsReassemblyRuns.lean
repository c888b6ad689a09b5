import AwsLc.DtlsHandshakeRuns

/-!
# Reassembly of a message over whole runs

One message is followed through a run of the receiver, from a state in which none of it has arrived
until it is consumed.  Its fragments come in any order, duplicated, overlapping or empty, between
records of other messages, key changes and deliveries.
-/

namespace AwsLc

open AwsLc.Runs DtlsHandshakeState HandshakeRun

variable {κ : Type}

/-- The incoming message number `seq`, if any of it has arrived. -/
def DtlsHandshakeState.fragmentOf (ssl : DtlsHandshakeState κ) (seq : UInt16) : Option HmFragment :=
  (ssl.incomingMessages (ringIndex seq)).filter fun frag => frag.seq == seq

/-- The union of the ranges received for message `seq`. -/
def coveredPositions (received : List (HmHeader × Bytes)) (seq : UInt16) : Set Nat :=
  { k | ∃ fragment ∈ received, fragment.1.seq = seq ∧
    k ∈ Set.Ico fragment.1.fragOff (fragment.1.fragOff + fragment.1.fragLen) }

theorem coveredPositions_append (received later : List (HmHeader × Bytes)) (seq : UInt16) :
    coveredPositions (received ++ later) seq =
      coveredPositions received seq ∪ coveredPositions later seq := by
  ext k
  simp [coveredPositions, Set.mem_ofPred_eq, Set.mem_union, List.mem_append, or_and_right,
    exists_or]

variable {received : List (HmHeader × Bytes)} {seq : UInt16}

theorem coveredPositions_of_forall_ne (hne : ∀ fragment ∈ received, fragment.1.seq ≠ seq) :
    coveredPositions received seq = ∅ := by
  ext k
  simp only [coveredPositions, Set.mem_ofPred_eq, Set.mem_empty_iff_false, iff_false]
  rintro ⟨fragment, hmem, hseq, -⟩
  exact hne fragment hmem hseq

theorem coveredPositions_singleton (fragment : HmHeader × Bytes) :
    coveredPositions [fragment] fragment.1.seq =
      Set.Ico fragment.1.fragOff (fragment.1.fragOff + fragment.1.fragLen) := by
  ext k
  simp [coveredPositions]

variable {frag : HmFragment} {ssl : DtlsHandshakeState κ}

theorem DtlsHandshakeState.fragmentOf_eq_some : ssl.fragmentOf seq = some frag ↔
      ssl.incomingMessages (ringIndex seq) = some frag ∧ frag.seq = seq := by
  simp [fragmentOf, Option.filter_eq_some_iff]

theorem DtlsHandshakeState.fragmentOf_setIncoming_self (ssl : DtlsHandshakeState κ)
    (hseq : frag.seq = seq) :
    (ssl.setIncoming (ringIndex seq) (some frag)).fragmentOf seq = some frag := by
  rw [fragmentOf_eq_some]
  exact ⟨Function.update_self _ _ _, hseq⟩

/-- Storing a fragment of another message, or emptying its slot, does not touch
    message `seq`, even where the two would share a slot. -/
theorem DtlsHandshakeState.fragmentOf_setIncoming_ne {other : UInt16} (hne : other ≠ seq)
    {frag : Option HmFragment}
    (hold : ∀ old, ssl.incomingMessages (ringIndex other) = some old → old.seq = other)
    (hnew : ∀ new, frag = some new → new.seq = other) :
    (ssl.setIncoming (ringIndex other) frag).fragmentOf seq = ssl.fragmentOf seq := by
  unfold fragmentOf setIncoming
  dsimp only
  by_cases hindex : ringIndex seq = ringIndex other
  · have hfilter : ∀ slot : Option HmFragment, (∀ new, slot = some new → new.seq = other) →
        slot.filter (fun frag => frag.seq == seq) = none := by
      intro slot hslot
      cases slot with
      | none => rfl
      | some new => simp [Option.filter, hslot new rfl, hne]
    rw [hindex, Function.update_self, hfilter frag hnew, hfilter _ hold]
  · rw [Function.update_of_ne hindex]

variable {ssl' : DtlsHandshakeState κ}

/-- What processing a fragment does to the message `seq`. -/
theorem fragmentOf_process (hring : ssl.Ring) {env : HandshakeEnv} {hdr : HmHeader} {body : Bytes}
    (hbody : body.length = hdr.fragLen) (hok : dtls1ProcessFragment env ssl hdr body = .ok ssl')
    (seq : UInt16) : (outsideWindow ssl.handshakeReadSeq hdr.seq = true ∧ ssl' = ssl) ∨
    (outsideWindow ssl.handshakeReadSeq hdr.seq = false ∧ hdr.seq ≠ seq ∧
      ssl'.fragmentOf seq = ssl.fragmentOf seq) ∨
    ∃ frag frag', outsideWindow ssl.handshakeReadSeq hdr.seq = false ∧ hdr.seq = seq ∧
      (ssl.fragmentOf seq = some frag ∨ ssl.fragmentOf seq = none ∧
        dtls1HmFragmentNew (env.malloc hdr) hdr = some frag) ∧
      frag.receive hdr body = some frag' ∧ ssl'.fragmentOf seq = some frag' := by
  rcases dtls1ProcessFragment_cases hring env hbody with
    ⟨alert, herror⟩ | ⟨houtside, hsame⟩ |
      ⟨frag, frag', hwindow, hslot, hwf, -, hseq, hmsgLen, hinside, hreceive, hset⟩
  · rw [herror] at hok
    cases hok
  · rw [hsame] at hok
    cases hok
    exact Or.inl ⟨houtside, rfl⟩
  · rw [hset] at hok
    cases hok
    obtain ⟨frag'', hreceive', -, -, hseq', -, -⟩ :=
      HmFragment.receive_wellFormed hwf hbody (by rw [hmsgLen]; exact hinside)
    obtain rfl : frag' = frag'' := Option.some.inj (hreceive.symm.trans hreceive')
    rw [hseq] at hseq'
    by_cases hmessage : hdr.seq = seq
    · subst hmessage
      refine Or.inr (Or.inr ⟨frag, frag', hwindow, rfl, ?_, hreceive,
        ssl.fragmentOf_setIncoming_self hseq'⟩)
      rcases hslot with hold | ⟨hnone, hnew⟩
      · exact Or.inl (fragmentOf_eq_some.mpr ⟨hold, hseq⟩)
      · exact Or.inr ⟨by rw [fragmentOf, hnone]; rfl, hnew⟩
    · refine Or.inr (Or.inl ⟨hwindow, hmessage,
        fragmentOf_setIncoming_ne hmessage ?_ ?_⟩)
      · intro old hold
        exact (hring.slot _ old hold).1.eq (outsideWindow_eq_false.mp hwindow)
      · rintro new ⟨⟩
        exact hseq'

/-- `slot` is `msg` filled in at the positions received, or empty as long as
    nothing of it was received. -/
structure Assembling (msg : HmMessage) (slot : Option HmFragment)
    (received : List (HmHeader × Bytes)) : Prop where
  none_iff : slot = none ↔ ∀ fragment ∈ received, fragment.1.seq ≠ msg.seq
  holds : ∀ frag, slot = some frag → frag.Holds msg (coveredPositions received msg.seq)

def SlicesOf (msg : HmMessage) (received : List (HmHeader × Bytes)) : Prop :=
  ∀ fragment ∈ received, fragment.1.seq = msg.seq → msg.Slice fragment.1 fragment.2

theorem SlicesOf.of_append {msg : HmMessage} {later : List (HmHeader × Bytes)}
    (h : SlicesOf msg (received ++ later)) : SlicesOf msg received :=
  fun fragment hmem => h fragment (List.mem_append_left later hmem)

/-- **One fragment**, of this message or of another. -/
theorem Assembling.process {msg : HmMessage} {env : HandshakeEnv} {hdr : HmHeader} {body : Bytes}
    (hring : ssl.Ring) (hassembling : Assembling msg (ssl.fragmentOf msg.seq) received)
    (hbody : body.length = hdr.fragLen) (hok : dtls1ProcessFragment env ssl hdr body = .ok ssl')
    (hslices : SlicesOf msg (received ++
      if outsideWindow ssl.handshakeReadSeq hdr.seq then [] else [(hdr, body)])) :
    Assembling msg (ssl'.fragmentOf msg.seq) (received ++
      if outsideWindow ssl.handshakeReadSeq hdr.seq then [] else [(hdr, body)]) := by
  rcases fragmentOf_process hring hbody hok msg.seq with
    ⟨houtside, rfl⟩ | ⟨hwindow, hne, hsame⟩ |
    ⟨frag, frag', hwindow, hseq, hbefore, hreceive, hafter⟩
  · rw [if_pos houtside, List.append_nil]
    exact hassembling
  · -- a fragment of another message adds nothing to the union
    have hother : coveredPositions [(hdr, body)] msg.seq = ∅ :=
      coveredPositions_of_forall_ne (by simpa using hne)
    rw [hwindow, if_neg (by decide)]
    refine ⟨?_, ?_⟩
    · rw [hsame, hassembling.none_iff, List.forall_mem_append]
      simp [hne]
    · intro frag hfrag
      rw [hsame] at hfrag
      rw [coveredPositions_append, hother, Set.union_empty]
      exact hassembling.holds frag hfrag
  · rw [hwindow, if_neg (by decide)] at hslices ⊢
    have hslice : msg.Slice hdr body := hslices (hdr, body) (by simp) hseq
    have hrange := coveredPositions_singleton (hdr, body)
    rw [hseq] at hrange
    have hholds : frag.Holds msg (coveredPositions received msg.seq) := by
      rcases hbefore with hold | ⟨hnone, hnew⟩
      · exact hassembling.holds frag hold
      · rw [coveredPositions_of_forall_ne (hassembling.none_iff.mp hnone)]
        exact dtls1HmFragmentNew_holds hslice hnew
    obtain ⟨frag'', hreceive', hholds'⟩ := HmFragment.receive_holds hholds hslice
    obtain rfl : frag' = frag'' := Option.some.inj (hreceive.symm.trans hreceive')
    refine ⟨?_, ?_⟩
    · rw [hafter]
      refine iff_of_false (by simp) fun hall => ?_
      exact hall (hdr, body) (by simp) hseq
    · intro result hresult
      obtain rfl : frag' = result := Option.some.inj (hafter.symm.trans hresult)
      rw [coveredPositions_append, hrange]
      exact hholds'

theorem SameRing.fragmentOf_eq (hsame : SameRing ssl ssl') (seq : UInt16) :
    ssl'.fragmentOf seq = ssl.fragmentOf seq := by
  rw [fragmentOf, fragmentOf, hsame.slots]

/-- Moving on from the current message does not touch a later one. -/
theorem dtls1NextMessage_fragmentOf (hring : ssl.Ring) (hnext : dtls1NextMessage ssl = some ssl')
    (hne : ssl.handshakeReadSeq ≠ seq) : ssl'.fragmentOf seq = ssl.fragmentOf seq := by
  obtain ⟨-, -, -, hslots⟩ := dtls1NextMessage_eq_some hnext
  have hclear : (ssl.setIncoming (ringIndex ssl.handshakeReadSeq) none).fragmentOf seq =
      ssl.fragmentOf seq :=
    fragmentOf_setIncoming_ne hne (fun old hold => hring.current_seq hold)
      (fun _ h => by cases h)
  rw [← hclear, fragmentOf, fragmentOf, hslots]
  rfl

section PendingRule

variable (seq : UInt16) (inv : Option HmFragment → List (HmHeader × Bytes) → Prop)
  (hprocess : ∀ env (ssl : DtlsHandshakeState κ) log hdr body ssl', ssl.Ring →
    inv (ssl.fragmentOf seq) log → body.length = hdr.fragLen →
    dtls1ProcessFragment env ssl hdr body = .ok ssl' →
    inv (ssl'.fragmentOf seq)
      (log ++ if outsideWindow ssl.handshakeReadSeq hdr.seq then [] else [(hdr, body)]))

/-- The message `seq` has not been consumed, the counter having started at `base`. -/
structure HandshakeRun.Pending (base : Nat) (r : HandshakeRun κ) : Prop where
  ring : r.ssl.Ring
  pending : base + r.consumed ≤ seq.toNat →
    r.ssl.handshakeReadSeq.toNat = base + r.consumed ∧ inv (r.ssl.fragmentOf seq) r.received

include hprocess

/-- **The rule for a pending message.**  A relation of its slot and the fragments received that
    every fragment keeps is kept by every call, until it is consumed. -/
theorem HandshakeRun.step_pending {base : Nat} {before after : HandshakeRun κ}
    {event : HandshakeEvent κ} (hbefore : before.Pending seq inv base)
    (hstep : before.step event = some after) : after.Pending seq inv base := by
  have hring := hbefore.ring
  refine ⟨step_ring hring hstep, ?_⟩
  have hframe : ∀ (ssl ssl' : DtlsHandshakeState κ) log, SameRing ssl ssl' →
      inv (ssl.fragmentOf seq) log → inv (ssl'.fragmentOf seq) log := by
    intro ssl ssl' log hsame h
    rwa [hsame.fragmentOf_eq]
  cases event with
  | openHandshake env packet =>
    cases hstep
    intro hpending
    obtain ⟨hseq, hinv⟩ := hbefore.pending hpending
    refine ⟨?_, dtls1OpenHandshake_induct (fun ssl log => inv (ssl.fragmentOf seq) log) hframe
      hprocess env packet _ hring hinv⟩
    rw [(dtls1OpenHandshake_frame hring env packet).1.1]
    exact hseq
  | openChangeCipherSpec env packet =>
    cases hstep
    intro hpending
    obtain ⟨hseq, hinv⟩ := hbefore.pending hpending
    refine ⟨?_, dtls1OpenChangeCipherSpec_induct (fun ssl log => inv (ssl.fragmentOf seq) log)
      hframe hprocess env packet _ hring hinv⟩
    rw [(dtls1OpenHandshake_frame hring env packet).2.1]
    exact hseq
  | getMessage =>
    simp only [step] at hstep
    split at hstep
    · cases hstep
      exact hbefore.pending
    · rename_i hget
      obtain ⟨-, rfl⟩ := dtls1GetMessage_eq_some hget
      cases hstep
      exact hbefore.pending
  | nextMessage =>
    obtain ⟨ssl, hnext, rfl⟩ := Option.map_eq_some_iff.mp hstep
    obtain ⟨-, hseq', -, -⟩ := dtls1NextMessage_eq_some hnext
    intro hpending
    dsimp only at hpending ⊢
    obtain ⟨hseq, hinv⟩ := hbefore.pending (by omega)
    have hlt := seq.toNat_lt
    refine ⟨?_, ?_⟩
    · rw [hseq', UInt16.toNat_add, UInt16.toNat_one, hseq]
      omega
    · rw [dtls1NextMessage_fragmentOf hring hnext]
      · exact hinv
      · rintro rfl
        omega
  | setReadState aeadCtx =>
    obtain ⟨ssl', hset, hsame⟩ := before.step_setReadState hring aeadCtx
    cases hset.symm.trans hstep
    intro hpending
    obtain ⟨hseq, hinv⟩ := hbefore.pending hpending
    exact ⟨by rw [hsame.readSeq]; exact hseq, hframe _ _ _ hsame hinv⟩

theorem HandshakeRun.run_pending {base : Nat} {before after : HandshakeRun κ}
    {events : List (HandshakeEvent κ)} (hbefore : before.Pending seq inv base)
    (hrun : run step before events = some after) : after.Pending seq inv base :=
  run_induct (HandshakeRun.Pending seq inv base) (fun _ => True)
    (fun _ _ _ hpending _ hstep => step_pending seq inv hprocess hpending hstep)
    (fun _ _ => trivial) hbefore hrun

end PendingRule

/-- A complete message is never changed, whatever fragments claim to belong to it. -/
theorem complete_process {env : HandshakeEnv} {hdr : HmHeader} {body : Bytes} (hring : ssl.Ring)
    (hfrag : ssl.fragmentOf seq = some frag) (hcomplete : frag.reassembly = none)
    (hbody : body.length = hdr.fragLen) (hok : dtls1ProcessFragment env ssl hdr body = .ok ssl') :
    ssl'.fragmentOf seq = some frag := by
  rcases fragmentOf_process hring hbody hok seq with
    ⟨-, rfl⟩ | ⟨-, -, hsame⟩ | ⟨old, new, -, -, hbefore, hreceive, hafter⟩
  · exact hfrag
  · rw [hsame, hfrag]
  · rcases hbefore with hold | ⟨hnone, -⟩
    · obtain rfl : old = frag := Option.some.inj (hold.symm.trans hfrag)
      rw [HmFragment.receive, hcomplete] at hreceive
      rw [hafter, ← hreceive]
    · rw [hnone] at hfrag
      cases hfrag

/-- A message that has started to arrive is complete exactly when the union of the
    ranges received is the whole message. -/
theorem Assembling.complete_iff {msg : HmMessage}
    (hassembling : Assembling msg (some frag) received) : frag.reassembly = none ↔
      coveredPositions received msg.seq = Set.Ico 0 msg.body.length := by
  have hholds := hassembling.holds frag rfl
  rw [hholds.complete_iff]
  constructor
  · intro hall
    ext k
    rw [Set.mem_Ico]
    exact ⟨fun hk => ⟨Nat.zero_le k, hholds.inside k hk⟩, fun hk => hall k hk.2⟩
  · intro heq k hk
    rw [heq]
    exact ⟨Nat.zero_le k, hk⟩

theorem dtls1IsCurrentMessageComplete_iff (hring : ssl.Ring) :
    dtls1IsCurrentMessageComplete ssl = true ↔
      ∃ frag, ssl.fragmentOf ssl.handshakeReadSeq = some frag ∧ frag.reassembly = none := by
  unfold dtls1IsCurrentMessageComplete
  constructor
  · intro hcomplete
    split at hcomplete
    · rename_i frag hslot
      exact ⟨frag, fragmentOf_eq_some.mpr ⟨hslot, hring.current_seq hslot⟩,
        Option.isNone_iff_eq_none.mp hcomplete⟩
    · cases hcomplete
  · rintro ⟨frag, hfrag, hcomplete⟩
    rw [(fragmentOf_eq_some.mp hfrag).1]
    simp [hcomplete]

/-- The fragments of a record, one after the other. -/
def encodeFragments (fragments : List (HmHeader × Bytes)) : Bytes :=
  (fragments.map fun fragment => fragment.1.encode ++ fragment.2).flatten

/-- A fragment that holds a part of the message, for which there is memory. -/
structure Offered (env : HandshakeEnv) (msg : HmMessage) (fragment : HmHeader × Bytes) : Prop where
  fits : fragment.1.Fits
  slice : msg.Slice fragment.1 fragment.2
  malloc : (env.malloc fragment.1).isSome

/-- **Slices are not refused**: the loop processes them one after the other. -/
theorem processedFragments_slices {msg : HmMessage} {env : HandshakeEnv} {rest : Bytes}
    (hsize : msg.body.length ≤ env.maxHandshakeMessageLen) {slices : List (HmHeader × Bytes)}
    (hslices : ∀ fragment ∈ slices, Offered env msg fragment) :
    ∀ {ssl : DtlsHandshakeState κ} {fuel : Nat} {held : Set Nat},
      outsideWindow ssl.handshakeReadSeq msg.seq = false →
      (ssl.rEpoch = 1 → msg.seq = ssl.handshakeReadSeq) →
      (ssl.incomingMessages (ringIndex msg.seq) = none ∧ held = ∅ ∨
        ∃ frag, ssl.incomingMessages (ringIndex msg.seq) = some frag ∧ frag.Holds msg held) →
      (encodeFragments slices ++ rest).length ≤ fuel →
      ∃ later, processedFragments env fuel ssl (encodeFragments slices ++ rest) =
        slices ++ later := by
  induction slices with
  | nil => exact fun _ _ _ _ => ⟨_, rfl⟩
  | cons fragment slices ih =>
    intro ssl fuel held hwindow hepoch hholds hfuel
    obtain ⟨hfits, hslice, hmalloc⟩ := hslices fragment List.mem_cons_self
    obtain ⟨frag, hok, hfrag⟩ :=
      dtls1ProcessFragment_slice hwindow hepoch rfl hholds hslice hsize hmalloc
    have hrecord : encodeFragments (fragment :: slices) ++ rest =
        fragment.1.encode ++ (fragment.2 ++ (encodeFragments slices ++ rest)) := by
      simp [encodeFragments]
    have hbody : fragment.2.length = fragment.1.fragLen := by
      have hinside := hslice.inside
      rw [hslice.body_eq, List.length_take, List.length_drop]
      omega
    have hparse := dtls1ParseFragment_iff.mpr ⟨hfits, hbody, hrecord⟩
    have hlength := congrArg List.length hrecord
    simp only [List.length_append, HmHeader.length_encode, DTLS1_HM_HEADER_LENGTH] at hlength hfuel
    obtain ⟨fuel, rfl⟩ : ∃ fewer, fuel = fewer + 1 := ⟨fuel - 1, by omega⟩
    have hne : encodeFragments (fragment :: slices) ++ rest ≠ [] := by
      intro hnil
      have hzero := congrArg List.length hnil
      rw [List.length_append, List.length_nil] at hzero
      omega
    -- the slot has the fragment now, and the window has not moved
    obtain ⟨later, hlater⟩ := @ih (fun next hnext => hslices next (List.mem_cons_of_mem _ hnext))
      (ssl.setIncoming (ringIndex msg.seq) (some frag)) fuel _ hwindow hepoch
      (Or.inr ⟨frag, by simp [DtlsHandshakeState.setIncoming], hfrag⟩)
      (by rw [List.length_append]; omega)
    refine ⟨later, ?_⟩
    rw [processedFragments, if_neg hne, hparse]
    dsimp only
    rw [hok]
    dsimp only
    rw [hlater, List.cons_append]

/-- An opened record that starts with slices of the message, which are acceptable at this
    moment. -/
structure OffersSlices (msg : HmMessage) (ssl : DtlsHandshakeState κ) (env : HandshakeEnv)
    (packet : Bytes) (slices : List (HmHeader × Bytes)) : Prop where
  opens : ∃ rest consumed read,
    dtlsOpenRecord ssl.toDtlsReadState packet =
      (.success SSL3_RT_HANDSHAKE (encodeFragments slices ++ rest), consumed, read) ∧
    (read.rEpoch = 1 → msg.seq = ssl.handshakeReadSeq)
  offered : ∀ fragment ∈ slices, Offered env msg fragment
  window : outsideWindow ssl.handshakeReadSeq msg.seq = false
  size_le : msg.body.length ≤ env.maxHandshakeMessageLen

theorem Assembling.receives {msg : HmMessage} {env : HandshakeEnv} {packet : Bytes}
    {slices : List (HmHeader × Bytes)} (hring : ssl.Ring)
    (hassembling : Assembling msg (ssl.fragmentOf msg.seq) received)
    (hoffers : OffersSlices msg ssl env packet slices) :
    ∃ later, receivedFragments env ssl packet = slices ++ later := by
  obtain ⟨⟨rest, consumed, read, hopen, hepoch⟩, hslices, hwindow, hsize⟩ := hoffers
  obtain ⟨held, hholds⟩ : ∃ held : Set Nat,
      ssl.incomingMessages (ringIndex msg.seq) = none ∧ held = ∅ ∨
      ∃ frag, ssl.incomingMessages (ringIndex msg.seq) = some frag ∧ frag.Holds msg held := by
    cases hslot : ssl.incomingMessages (ringIndex msg.seq) with
    | none => exact ⟨∅, Or.inl ⟨rfl, rfl⟩⟩
    | some frag =>
      have hseq := (hring.slot _ frag hslot).1.eq (outsideWindow_eq_false.mp hwindow)
      exact ⟨_, Or.inr ⟨frag, rfl, hassembling.holds frag (fragmentOf_eq_some.mpr ⟨hslot, hseq⟩)⟩⟩
  obtain ⟨later, hprocessed⟩ := @processedFragments_slices _ msg env rest hsize slices hslices
    { ssl with toDtlsReadState := read } _ held hwindow hepoch hholds le_rfl
  unfold receivedFragments handledFragments
  rw [hopen]
  dsimp only
  rw [if_pos rfl, hprocessed, List.filter_append, List.filter_eq_self.mpr]
  · exact ⟨_, rfl⟩
  · intro fragment hmem
    rw [(hslices fragment hmem).slice.seq_eq, hwindow]
    rfl

/-- **Reassembly over whole runs.**  Follow a message from a reachable state in which nothing of it
    has arrived, through any run in which it is not consumed and in which the fragments received
    under its number are slices of it.

    Its `hm_fragment` exists once one of them was received.  It is complete exactly when the union
    of their ranges is the whole message, and `dtls1_is_current_message_complete` says so when its
    turn has come.  Once complete, its data are the header and the body of the message, and no later
    call changes it before it is consumed.  At every moment slices of it that arrive in a record are
    received, if they are in the window, the message is not too long and there is memory. -/
theorem reassembly_exact {start : DtlsHandshakeState κ} (hreach : start.Reachable)
    {msg : HmMessage} (hnew : start.fragmentOf msg.seq = none)
    {events : List (HandshakeEvent κ)} {final : HandshakeRun κ}
    (hrun : run step start.observe events = some final)
    (hpending : start.handshakeReadSeq.toNat + final.consumed ≤ msg.seq.toNat)
    (hslices : ∀ fragment ∈ final.received, fragment.1.seq = msg.seq →
      msg.Slice fragment.1 fragment.2) : (final.ssl.fragmentOf msg.seq = none ↔
      ∀ fragment ∈ final.received, fragment.1.seq ≠ msg.seq) ∧
    (∀ frag, final.ssl.fragmentOf msg.seq = some frag → (frag.reassembly = none ↔
        coveredPositions final.received msg.seq = Set.Ico 0 msg.body.length) ∧
      (frag.reassembly = none →
        frag.data = hmMessageHeader msg.type msg.body.length msg.seq ++ msg.body ∧
        ∀ laterEvents later, run step final laterEvents = some later →
          start.handshakeReadSeq.toNat + later.consumed ≤ msg.seq.toNat →
          later.ssl.fragmentOf msg.seq = some frag)) ∧ (final.ssl.handshakeReadSeq = msg.seq →
      (dtls1IsCurrentMessageComplete final.ssl = true ↔
        (∃ fragment ∈ final.received, fragment.1.seq = msg.seq) ∧
        coveredPositions final.received msg.seq = Set.Ico 0 msg.body.length)) ∧
    ∀ env packet slices, OffersSlices msg final.ssl env packet slices →
      ∃ next later, final.step (.openHandshake env packet) = some next ∧
        next.received = final.received ++ (slices ++ later) := by
  have hring := hreach.ring
  -- the slot assembles the message, provided what was received so far are slices
  have hfinal : final.Pending msg.seq
      (fun slot received => SlicesOf msg received → Assembling msg slot received)
      start.handshakeReadSeq.toNat := by
    refine run_pending msg.seq _ ?_ ⟨hring, fun _ => ⟨rfl, fun _ => ?_⟩⟩ hrun
    · intro env ssl log hdr body ssl' hssl hassembling hbody hok hall
      exact Assembling.process hssl (hassembling hall.of_append) hbody hok hall
    · refine ⟨iff_of_true hnew (by simp [observe]), fun frag hfrag => ?_⟩
      exact absurd (hnew.symm.trans hfrag) (by simp)
  obtain ⟨-, hassembling⟩ := hfinal.pending hpending
  replace hassembling := hassembling hslices
  refine ⟨hassembling.none_iff, ?_, ?_, ?_⟩
  · intro frag hfrag
    have hsome : Assembling msg (some frag) final.received := hfrag ▸ hassembling
    refine ⟨hsome.complete_iff, fun hcomplete => ?_⟩
    refine ⟨(hsome.holds frag rfl).data_of_complete hcomplete, ?_⟩
    intro laterEvents later hlater hlaterPending
    have hkeep : later.Pending msg.seq (fun slot _ => slot = some frag)
        start.handshakeReadSeq.toNat := by
      refine run_pending msg.seq _ ?_
        ⟨hfinal.ring, fun h => ⟨(hfinal.pending h).1, hfrag⟩⟩ hlater
      intro env ssl log hdr body ssl' hssl hslot hbody hok
      exact complete_process hssl hslot hcomplete hbody hok
    exact (hkeep.pending hlaterPending).2
  · intro hcurrent
    rw [dtls1IsCurrentMessageComplete_iff hfinal.ring, hcurrent]
    constructor
    · rintro ⟨frag, hfrag, hcomplete⟩
      have hsome : Assembling msg (some frag) final.received := hfrag ▸ hassembling
      refine ⟨?_, hsome.complete_iff.mp hcomplete⟩
      by_contra hnone
      push Not at hnone
      rw [hassembling.none_iff.mpr hnone] at hfrag
      cases hfrag
    · rintro ⟨⟨fragment, hmem, hseq⟩, hcovered⟩
      cases hfrag : final.ssl.fragmentOf msg.seq with
      | none => exact absurd hseq (hassembling.none_iff.mp hfrag fragment hmem)
      | some frag =>
        have hsome : Assembling msg (some frag) final.received := hfrag ▸ hassembling
        exact ⟨frag, rfl, hsome.complete_iff.mpr hcovered⟩
  · intro env packet slices hoffers
    obtain ⟨later, hreceives⟩ := hassembling.receives hfinal.ring hoffers
    exact ⟨_, later, rfl, congrArg (final.received ++ ·) hreceives⟩

def twoByteMessage : HmMessage := { type := 1, seq := 0, body := [7, 8] }

def twoByteHeader (fragOff fragLen : Nat) : HmHeader :=
  { type := 1, msgLen := 2, seq := 0, fragOff, fragLen }

def twoByteSlices : List (HmHeader × Bytes) :=
  [(twoByteHeader 1 1, [8]), (twoByteHeader 0 2, [7, 8])]

def twoByteEnv : HandshakeEnv :=
  { malloc := fun _ => some fun _ => 0, maxHandshakeMessageLen := 100 }

theorem twoByteSlices_offered : ∀ fragment ∈ twoByteSlices,
    Offered twoByteEnv twoByteMessage fragment := by
  intro fragment hmem
  simp only [twoByteSlices, List.mem_cons, List.not_mem_nil, or_false] at hmem
  rcases hmem with rfl | rfl
  · exact ⟨⟨by decide, by decide, by decide⟩, ⟨rfl, rfl, rfl, by decide, rfl⟩, rfl⟩
  · exact ⟨⟨by decide, by decide, by decide⟩, ⟨rfl, rfl, rfl, by decide, rfl⟩, rfl⟩

/-- The slices in one record each. -/
def twoByteEvents : List (HandshakeEvent Unit) :=
  [.openHandshake twoByteEnv (dtlsEncodeRecord SSL3_RT_HANDSHAKE DTLS1_2_VERSION
      (recordSequence 1) ((twoByteHeader 1 1).encode ++ [8])),
    .openHandshake twoByteEnv (dtlsEncodeRecord SSL3_RT_HANDSHAKE DTLS1_2_VERSION
      (recordSequence 2) ((twoByteHeader 0 2).encode ++ [7, 8]))]

/-- Two slices that come in two records, and the same in one. -/
theorem reassembly_exact_two_bytes :
    (∃ final, run step freshReceiver.observe twoByteEvents = some final ∧
      dtls1IsCurrentMessageComplete final.ssl = true) ∧
    ∃ next later, freshReceiver.observe.step (.openHandshake twoByteEnv
        (dtlsEncodeRecord SSL3_RT_HANDSHAKE DTLS1_2_VERSION (recordSequence 1)
          (encodeFragments twoByteSlices))) = some next ∧
      next.received = twoByteSlices ++ later := by
  have hfresh : freshReceiver.Reachable := ⟨freshReceiver, [], _, freshReceiver_fresh, rfl, rfl⟩
  have hnew : freshReceiver.fragmentOf twoByteMessage.seq = none := rfl
  constructor
  · obtain ⟨final, hrun, hreceived, hconsumed, hseq⟩ : ∃ final,
        run step freshReceiver.observe twoByteEvents = some final ∧
        final.received = twoByteSlices ∧ final.consumed = 0 ∧ final.ssl.handshakeReadSeq = 0 :=
      ⟨_, rfl, by decide, rfl, by decide⟩
    refine ⟨final, hrun, ?_⟩
    have hresult := (reassembly_exact hfresh hnew hrun (by rw [hconsumed]; decide) (by
      rw [hreceived]
      exact fun fragment hmem _ => (twoByteSlices_offered fragment hmem).slice)).2.2.1 hseq
    refine hresult.mpr ⟨?_, ?_⟩
    · rw [hreceived]
      exact ⟨_, List.mem_cons_self, rfl⟩
    · rw [hreceived]
      ext k
      simp [coveredPositions, twoByteSlices, twoByteHeader, twoByteMessage]
  · obtain ⟨consumed, hopen⟩ := @dtlsOpenRecord_null _ (recordSequence 1)
      freshReceiver.toDtlsReadState SSL3_RT_HANDSHAKE DTLS1_2_VERSION
      (encodeFragments twoByteSlices) (by decide) rfl (by decide) (by decide) (by decide) (by decide) (by decide)
    exact (reassembly_exact hfresh hnew (show run step freshReceiver.observe [] = some _ from rfl)
      (by decide) nofun).2.2.2 twoByteEnv _ twoByteSlices
      ⟨⟨[], consumed, _, by rw [List.append_nil]; exact hopen, fun _ => rfl⟩,
        twoByteSlices_offered, by decide, by decide⟩

end AwsLc
