import Execlaw.PairedHostRuns
import Mathlib.Data.List.DropRight
/-!
# PairedHostExchange — a task issued by one host and received by another

The issuer bounds the text of the task, the receiver the text of the envelope around it.  What one issues the other
accepts, with the lists both ceilings contain, exactly when the envelope is within the bound and its text reads back.
-/
namespace Execlaw

open Table Interleave

theorem trim_trim (s : String) : trim (trim s) = trim s := by
  have htrim : ∀ s, trim s = String.ofList ((s.toList.dropWhile isWhitespace).rdropWhile isWhitespace) := fun _ => rfl
  rw [htrim (trim s), htrim s, String.toList_ofList]
  generalize hl : s.toList.dropWhile isWhitespace = l
  have hidem : l.dropWhile isWhitespace = l := by rw [← hl, List.dropWhile_idempotent]
  -- what is left after trimming the end starts as before
  have hfront : (l.rdropWhile isWhitespace).dropWhile isWhitespace = l.rdropWhile isWhitespace := by
    obtain ⟨rest, hrest⟩ := List.rdropWhile_prefix isWhitespace (l := l)
    cases hd : l.rdropWhile isWhitespace with
    | nil => rfl
    | cons c cs =>
      have hlc : l = c :: (cs ++ rest) := by rw [← hrest, hd]; rfl
      have hc : isWhitespace c = false := by
        by_contra hc
        rw [hlc, List.dropWhile_cons_of_pos (by simpa using hc)] at hidem
        have := congrArg List.length hidem
        have := (List.dropWhile_suffix isWhitespace (l := cs ++ rest)).length_le
        simp at *
        omega
      rw [List.dropWhile_cons_of_neg (by simp [hc])]
  rw [hfront, List.rdropWhile_idempotent]

namespace PairedHostStore

theorem mem_dedup {v : String} : ∀ {l : List String}, v ∈ dedup l ↔ v ∈ l
  | [] => Iff.rfl
  | [_] => Iff.rfl
  | a :: b :: l => by
    unfold dedup
    split
    · next h =>
      rw [mem_dedup, h]
      simp
    · rw [List.mem_cons, mem_dedup, ← List.mem_cons]

theorem length_dedup_le : ∀ l : List String, (dedup l).length ≤ l.length
  | [] => Nat.le_refl _
  | [_] => Nat.le_refl _
  | a :: b :: l => by
    have ih := length_dedup_le (b :: l)
    unfold dedup
    split
    · exact Nat.le_succ_of_le ih
    · simpa using ih

theorem pairwise_dedup : ∀ {l : List String}, l.Pairwise (· ≤ ·) → (dedup l).Pairwise (· < ·)
  | [], _ => .nil
  | [_], _ => List.pairwise_singleton _ _
  | a :: b :: l, h => by
    have ih := pairwise_dedup h.of_cons
    unfold dedup
    split
    · exact ih
    · next hab =>
      refine List.pairwise_cons.2 ⟨fun c hc => ?_, ih⟩
      have hc := mem_dedup.1 hc
      have hlt : a < b := lt_of_le_of_ne (List.rel_of_pairwise_cons h List.mem_cons_self) hab
      rcases List.mem_cons.1 hc with rfl | hc
      · exact hlt
      · exact lt_of_lt_of_le hlt (List.rel_of_pairwise_cons h.of_cons hc)

theorem dedup_of_pairwise : ∀ {l : List String}, l.Pairwise (· < ·) → dedup l = l
  | [], _ => rfl
  | [_], _ => rfl
  | a :: b :: l, h => by
    unfold dedup
    have hab : a < b := List.rel_of_pairwise_cons h List.mem_cons_self
    rw [if_neg hab.ne, dedup_of_pairwise h.of_cons]
/-! ## Normalised lists -/

structure Normalised (l : List String) : Prop where
  few : l.length ≤ 128
  sorted : l.Pairwise (· < ·)
  trimmed : ∀ v ∈ l, trim v = v
  sized : ∀ v ∈ l, v.isEmpty = false ∧ v.utf8ByteSize ≤ 128

variable {l : List String}

theorem normalizeAllowlist_ok {values : List String} {field : String} (h : normalizeAllowlist values field = .ok l) :
    Normalised l ∧ ∀ v, v ∈ l ↔ v ∈ values.map trim := by
  unfold normalizeAllowlist at h
  split at h
  · cases h
  next hfew =>
  split at h
  · cases h
  next hsized =>
  cases h
  have hmem : ∀ v, v ∈ dedup (orderBy id (values.map trim)) ↔ v ∈ values.map trim := fun v =>
    mem_dedup.trans (mem_orderBy id)
  refine ⟨⟨?_, pairwise_dedup (pairwise_orderBy id _), fun v hv => ?_, fun v hv => ?_⟩, hmem⟩
  · have hlen : (orderBy id (values.map trim)).length = values.length := by
      rw [orderBy, List.length_insertionSort, List.length_map]
    have := length_dedup_le (orderBy id (values.map trim))
    omega
  · obtain ⟨w, -, rfl⟩ := List.mem_map.1 ((hmem v).1 hv)
    exact trim_trim w
  · by_contra hbad
    refine hsized (List.any_eq_true.2 ⟨v, (hmem v).1 hv, ?_⟩)
    rw [Bool.or_eq_true, decide_eq_true_eq]
    cases hempty : v.isEmpty with
    | true => exact .inl rfl
    | false => exact .inr (by simpa [hempty] using hbad)

theorem Normalised.normalize (h : Normalised l) (field : String) : normalizeAllowlist l field = .ok l := by
  have htrim : l.map trim = l := (List.map_congr_left h.trimmed).trans (List.map_id l)
  have hsized : (l.any fun v => v.isEmpty || decide (128 < v.utf8ByteSize)) = false := by
    rw [List.any_eq_false]
    intro v hv
    obtain ⟨hempty, hsize⟩ := h.sized v hv
    simp [hempty, hsize]
  have hsorted : orderBy id l = l := List.Pairwise.insertionSort_eq (h.sorted.imp fun hlt => hlt.le)
  unfold normalizeAllowlist
  rw [htrim, hsized, if_neg (by have := h.few; omega), if_neg Bool.false_ne_true, hsorted, dedup_of_pairwise h.sorted]

theorem Normalised.filter (h : Normalised l) (p : String → Bool) : Normalised (l.filter p) where
  few := (List.length_filter_le p l).trans h.few
  sorted := h.sorted.sublist List.filter_sublist
  trimmed := fun v hv => h.trimmed v (List.mem_filter.1 hv).1
  sized := fun v hv => h.sized v (List.mem_filter.1 hv).1

/-! ## Issuing -/

section Exchange

variable {V SK PK : Type} (lib : HostLib V SK PK) {request : IssueDelegatedHostTask V SK} {t t' : PairedHosts}
  {sent : SignedDelegationEnvelope}

/-- **What an issued envelope tells**: the checks its task passed, the ceilings of its peer and the lists it carries. -/
structure Issued (request : IssueDelegatedHostTask V SK) (t : PairedHosts) (sent : SignedDelegationEnvelope)
    (host : PairedHostRow) (taskJson : String) (caps labels : List String) : Prop where
  peer : t.peers.row request.peerId = some host
  checks : issueChecks lib request = .ok taskJson
  requested : normalizeAllowlist request.requestedCapabilities "capability" = .ok caps
  labelled : normalizeAllowlist request.requestedDataLabels "data label" = .ok labels
  payload : lib.envelopeToVec ⟨request.taskId, request.task, caps.filter (fun v => host.allowedCapabilities.contains v),
    labels.filter (fun v => host.allowedDataLabels.contains v)⟩ = .ok sent.payload
  signature : sent.signatureHex = hexEncode (lib.sign request.localIdentity sent.payload)

theorem issued_of_alone (h : (issueSignedTask lib request).alone t = (.ok sent, t')) :
    ∃ host taskJson caps labels, Issued lib request t sent host taskJson caps labels := by
  unfold issueSignedTask at h
  split at h
  · cases h
  next taskJson hchecks =>
  rw [Prog.alone_bind, Prog.alone_read] at h
  split at h
  · cases h
  next key caps labels hpolicy =>
  obtain ⟨host, hhost, -, hceilings⟩ := activePeerPolicy_ok hpolicy
  obtain ⟨-, rfl, rfl⟩ := Prod.mk.injEq .. ▸ hceilings
  split at h
  · cases h
  next row payload hout =>
  unfold outbound at hout
  obtain ⟨caps, hcaps, hout⟩ := bind_ok hout
  obtain ⟨labels, hlabels, hout⟩ := bind_ok hout
  dsimp only at hout
  split at hout
  · cases hout
  next bytes hbytes =>
  cases hout
  rw [Prog.alone_bind, Prog.alone_atomic] at h
  split at h
  · cases h
  rw [Prog.alone_bind, Prog.alone_read, Prog.alone_pure] at h
  obtain ⟨hsent, -⟩ := Prod.mk.inj h
  unfold issued at hsent
  split at hsent
  · cases hsent
  split at hsent
  · cases hsent
    exact ⟨host, taskJson, caps, labels, hhost, hchecks, hcaps, hlabels, hbytes, rfl⟩
  · cases hsent

theorem issueChecks_ok {taskJson : String} (h : issueChecks lib request = .ok taskJson) :
    validateId request.taskId "task id" 128 = .ok () ∧ lib.isNull request.task = false ∧
      lib.taskToString request.task = .ok taskJson := by
  unfold issueChecks at h
  obtain ⟨u, hid, h⟩ := bind_ok h
  obtain ⟨_, hnull, h⟩ := bind_ok h
  split at h
  · cases h
  next text htext =>
  split at h
  · cases h
  · cases h
    exact ⟨hid, by simpa using reject_ok hnull, htext⟩

/-! ## Receiving -/

def HoldsKey (host : PairedHostRow) (sk : SK) : Prop :=
  ∃ bytes, decodeHex 32 host.publicKeyHex "peer public key" = .ok bytes ∧
    lib.keyFromBytes bytes = some (lib.verifyingKey sk)

variable {host : PairedHostRow}

theorem verifySignature_sign {sk : SK} (h : HoldsKey lib host sk) (payload : List UInt8) :
    verifySignature lib host.publicKeyHex payload (hexEncode (lib.sign sk payload)) = .ok () := by
  obtain ⟨bytes, hbytes, hkey⟩ := h
  have hsig : decodeHex 64 (hexEncode (lib.sign sk payload)) "peer signature" = .ok (lib.sign sk payload) := by
    unfold decodeHex
    rw [hexDecode_hexEncode]
    exact if_pos (lib.sign_length sk payload)
  unfold verifySignature
  simp [hbytes, hkey, hsig, lib.sign_verifies]

theorem receive_alone {sk : SK} {peerId : String} {payload : List UInt8} {now : Int}
    (hhost : t.peers.row peerId = some host) (hactive : host.active = true) :
    (receiveSignedTask lib peerId payload (hexEncode (lib.sign sk payload)) now).alone t =
      if maxSignedEnvelopeBytes < payload.length then (.error (.invalid "signed task exceeds 256 KiB"), t)
      else
        match inbound lib peerId payload (hexEncode (lib.sign sk payload)) now
          (host.publicKeyHex, host.allowedCapabilities, host.allowedDataLabels) with
        | .error e => (.error e, t)
        | .ok (row, v) =>
          match Calls.transact (insertTask row) t with
          | (.error e, t') => (.error (.db e), t')
          | (.ok (), t') => (.ok (received row v), t') := by
  unfold receiveSignedTask
  split
  · rfl
  have hpolicy : activePeerPolicy peerId t =
      .ok (host.publicKeyHex, host.allowedCapabilities, host.allowedDataLabels) := by
    have hfilter : (some host).filter (fun r => r.active) = some host := by simp [Option.filter, hactive]
    rw [activePeerPolicy, hhost, hfilter]
  rw [Prog.alone_bind, Prog.alone_read, hpolicy]
  dsimp only
  rcases inbound lib peerId payload (hexEncode (lib.sign sk payload)) now
    (host.publicKeyHex, host.allowedCapabilities, host.allowedDataLabels) with e | ⟨row, v⟩
  · rfl
  · rw [Prog.alone_bind, Prog.alone_atomic]
    dsimp only
    rcases Calls.transact (insertTask row) t with ⟨e | u, t'⟩ <;> rfl

theorem inbound_eq {sk : SK} {peerId : String} {payload : List UInt8} {now : Int} {envelope : SignedTaskEnvelope V}
    {taskJson : String} {caps labels : List String} (hkey : HoldsKey lib host sk)
    (hread : lib.envelopeFromSlice payload = .ok envelope) (hid : validateId envelope.taskId "task id" 128 = .ok ())
    (hnull : lib.isNull envelope.task = false) (htext : lib.taskToString envelope.task = .ok taskJson)
    (hcaps : normalizeAllowlist envelope.requestedCapabilities "capability" = .ok caps)
    (hlabels : normalizeAllowlist envelope.requestedDataLabels "data label" = .ok labels) :
    inbound lib peerId payload (hexEncode (lib.sign sk payload)) now
        (host.publicKeyHex, host.allowedCapabilities, host.allowedDataLabels) =
      .ok (newTask envelope.taskId peerId taskJson (caps.filter (fun v => host.allowedCapabilities.contains v))
        (labels.filter (fun v => host.allowedDataLabels.contains v)) now, envelope.task) := by
  have hverify := verifySignature_sign lib hkey payload
  have hreject : reject (lib.isNull envelope.task = true) (.invalid "task payload must not be null") = .ok () :=
    if_neg (by simp [hnull])
  unfold inbound
  simp only [hverify, hread, hid, hreject, hcaps, hlabels, htext, bind, Except.bind]

theorem insertTask_free {r : DelegatedTaskRow} (hhost : t.peers.row r.peerId = some host)
    (hfree : t.tasks.row r.taskId = none) :
    ∃ t', Calls.transact (insertTask r) t = (.ok (), t') ∧ t'.tasks.row r.taskId = some r := by
  have hins : t.tasks.insert? r trivial ≠ none := by
    rw [Ne, Keyed.insert?_eq_none, hfree]
    simp
  obtain ⟨tasks, htasks⟩ := Option.ne_none_iff_exists'.1 hins
  refine ⟨{ t with tasks := tasks }, Calls.transact_of_ok ?_, ?_⟩
  · simp [insertTask, hhost, htasks]
  · simpa [hfree] using (Keyed.insert?_eq_some htasks).2 r.taskId

/-- What the two hosts agree on: the task is stored as it was issued, with the requested entries both ceilings contain. -/
structure Agrees (request : IssueDelegatedHostTask V SK) (hostA hostB : PairedHostRow) (task : DelegatedHostTask V)
    (t' : PairedHosts) : Prop where
  taskId : task.taskId = request.taskId
  value : task.task = request.task
  stored : ∃ row, t'.tasks.row request.taskId = some row ∧ lib.taskToString request.task = .ok row.taskJson ∧
    row.authority = task.effectiveCapabilities ∧ row.dataLabels = task.effectiveDataLabels
  capabilities : ∀ v, v ∈ task.effectiveCapabilities ↔
    v ∈ request.requestedCapabilities.map trim ∧ v ∈ hostA.allowedCapabilities ∧ v ∈ hostB.allowedCapabilities
  dataLabels : ∀ v, v ∈ task.effectiveDataLabels ↔
    v ∈ request.requestedDataLabels.map trim ∧ v ∈ hostA.allowedDataLabels ∧ v ∈ hostB.allowedDataLabels

theorem mem_twice_filtered {values l : List String} {field : String} (h : normalizeAllowlist values field = .ok l)
    (a b : List String) (v : String) :
    v ∈ (l.filter (fun v => a.contains v)).filter (fun v => b.contains v) ↔ v ∈ values.map trim ∧ v ∈ a ∧ v ∈ b := by
  rw [List.mem_filter, List.mem_filter, (normalizeAllowlist_ok h).2]
  simp [and_assoc]

/-- **What one host issues the other receives**, exactly when the envelope is at most 256 KiB and reads back to the
task. -/
theorem received_iff {tA tA' tB : PairedHosts} {hostA hostB : PairedHostRow} {peerId : String} {now : Int}
    (hissued : (issueSignedTask lib request).alone tA = (.ok sent, tA'))
    (hA : tA.peers.row request.peerId = some hostA) (hB : tB.peers.row peerId = some hostB)
    (hactive : hostB.active = true) (hkey : HoldsKey lib hostB request.localIdentity)
    (hfree : tB.tasks.row request.taskId = none) :
    (∃ task tB', (receiveSignedTask lib peerId sent.payload sent.signatureHex now).alone tB = (.ok task, tB') ∧
        Agrees lib request hostA hostB task tB') ↔
      sent.payload.length ≤ maxSignedEnvelopeBytes ∧
        ∃ e, lib.envelopeFromSlice sent.payload = .ok e ∧ e.task = request.task := by
  obtain ⟨host, taskJson, caps, labels, hi⟩ := issued_of_alone lib hissued
  obtain rfl : host = hostA := Option.mem_unique hi.peer hA
  obtain ⟨hid, hnull, htext⟩ := issueChecks_ok lib hi.checks
  rw [hi.signature, receive_alone lib hB hactive]
  constructor
  · rintro ⟨task, tB', hreceived, hagrees⟩
    split at hreceived
    · cases hreceived
    next hsize =>
    refine ⟨by omega, ?_⟩
    split at hreceived
    · cases hreceived
    next row v hin =>
    -- what was stored is what was read
    have hread : ∃ e, lib.envelopeFromSlice sent.payload = .ok e ∧ e.task = v := by
      unfold inbound at hin
      obtain ⟨_, -, hin⟩ := bind_ok hin
      split at hin
      · cases hin
      next e he =>
      obtain ⟨_, -, hin⟩ := bind_ok hin
      obtain ⟨_, -, hin⟩ := bind_ok hin
      obtain ⟨_, -, hin⟩ := bind_ok hin
      obtain ⟨_, -, hin⟩ := bind_ok hin
      split at hin
      · cases hin
      · exact ⟨e, he, (Prod.mk.inj (Except.ok.inj hin)).2⟩
    obtain ⟨e, he, hv⟩ := hread
    refine ⟨e, he, ?_⟩
    rcases htx : Calls.transact (insertTask row) tB with ⟨err | u, t''⟩ <;> rw [htx] at hreceived
    · cases hreceived
    · obtain ⟨htask, -⟩ := Prod.mk.inj hreceived
      have hvalue := hagrees.value
      rw [← Except.ok.inj htask] at hvalue
      exact hv.trans hvalue
  · rintro ⟨hsize, e, he, hvalue⟩
    rw [if_neg (by omega)]
    -- the envelope is read back as it was written
    rcases lib.envelope_reads _ _ hi.payload with ⟨msg, hmsg⟩ | ⟨v, hv⟩
    · rw [hmsg] at he
      cases he
    obtain rfl : e = _ := Except.ok.inj (he.symm.trans hv)
    obtain rfl : v = request.task := hvalue
    have hcaps := ((normalizeAllowlist_ok hi.requested).1.filter (fun v => host.allowedCapabilities.contains v)).normalize
      "capability"
    have hlabels := ((normalizeAllowlist_ok hi.labelled).1.filter (fun v => host.allowedDataLabels.contains v)).normalize
      "data label"
    rw [inbound_eq lib hkey hv hid hnull htext hcaps hlabels]
    obtain ⟨tB', htx, hrow⟩ := insertTask_free (r := newTask request.taskId peerId taskJson _ _ now) hB hfree
    dsimp only
    rw [htx]
    refine ⟨_, tB', rfl, rfl, rfl, ⟨_, hrow, htext, rfl, rfl⟩, ?_, ?_⟩
    · exact mem_twice_filtered hi.requested _ _
    · exact mem_twice_filtered hi.labelled _ _

end Exchange

/-! ## Tasks of letters -/

def textBytes (s : String) : List UInt8 := s.toByteArray.data.toList

def envelopeHead : String := "\x7b\"task_id\":\"t\",\"task\":\""

def listText (l : List String) : String := "[" ++ ",".intercalate (l.map fun v => "\"" ++ v ++ "\"") ++ "]"

def envelopeTail (caps labels : List String) : String :=
  "\",\"requested_capabilities\":" ++ listText caps ++ ",\"requested_data_labels\":" ++ listText labels ++ "\x7d"

def envelopeText (caps labels : List String) (task : String) : String := envelopeHead ++ task ++ envelopeTail caps labels

def letters (n : Nat) : String := String.ofList (List.replicate n 'a')

theorem utf8ByteSize_letters (n : Nat) : (letters n).utf8ByteSize = n := by
  induction n with
  | zero => rfl
  | succ n ih =>
    have h : letters (n + 1) = "a" ++ letters n := by
      rw [letters, List.replicate_succ, ← List.singleton_append, String.ofList_append]
      rfl
    rw [h, String.utf8ByteSize_append, ih]
    exact Nat.add_comm 1 n

/-- Reads and writes the envelopes of one task with these lists. -/
def exchangeLib (caps labels : List String) : HostLib String Unit Unit where
  taskToString := fun v => .ok ("\"" ++ v ++ "\"")
  taskFromStr := fun s => .ok (String.ofList (s.toList.tail.dropLast))
  isNull := fun _ => false
  envelopeToVec := fun e =>
    if e.taskId = "t" ∧ e.requestedCapabilities = caps ∧ e.requestedDataLabels = labels then
      .ok (textBytes (envelopeText caps labels e.task))
    else .error "not written"
  envelopeFromSlice := fun bytes =>
    match [letters 3, letters 262142].find? (fun v => bytes == textBytes (envelopeText caps labels v)) with
    | some v => .ok ⟨"t", v, caps, labels⟩
    | none => .error "not read"
  resultFromSlice := fun _ => .error "not read"
  parseUrl := fun _ => .error "not read"
  parseIp := fun _ => none
  sha256Hex := fun _ => ""
  keyFromBytes := fun _ => some ()
  verify := fun _ _ signature => signature == List.replicate 64 0
  sign := fun _ _ => List.replicate 64 0
  verifyingKey := fun _ => ()
  sign_length := zeroSignature_length
  sign_verifies := zeroSignature_verifies
  envelope_reads := by
    intro e bytes h
    split at h
    · next he =>
      obtain ⟨hid, hcaps, hlabels⟩ := he
      split
      · next v _ =>
        exact .inr ⟨v, by rw [hid, hcaps, hlabels]⟩
      · exact .inl ⟨_, rfl⟩
    · cases h

def pairedPeer (caps labels : List String) : PairedHostRow :=
  ⟨"p", "https://localhost", "https://localhost", "".pushn '0' 64, "".pushn '0' 64, caps, labels, "op", 1, true⟩

/-- A host that has paired `p`, with these ceilings. -/
def pairedWithP (caps labels : List String) : PairedHosts :=
  ⟨Keyed.empty.insertOrIgnore (pairedPeer caps labels)
    (show _ = 64 ∧ _ = 64 from ⟨String.length_pushn .., String.length_pushn ..⟩), .empty⟩

def letterTask (caps labels : List String) (n : Nat) : IssueDelegatedHostTask String Unit :=
  ⟨"p", "t", letters n, caps, labels, (), 2⟩

def letterEnvelope (caps labels : List String) (n : Nat) : SignedDelegationEnvelope :=
  ⟨"https://localhost", textBytes (envelopeText caps labels (letters n)), hexEncode (List.replicate 64 0)⟩

section Letters

variable {caps labels : List String}

theorem letters_issued {n : Nat} {asked askedLabels ceiling labelCeiling : List String}
    (h : n + 2 ≤ maxSignedEnvelopeBytes)
    (hcaps : (normalizeAllowlist asked "capability").map (fun l => l.filter (fun v => ceiling.contains v)) = .ok caps)
    (hlabels : (normalizeAllowlist askedLabels "data label").map (fun l => l.filter (fun v => labelCeiling.contains v)) =
      .ok labels) :
    ∃ t', (issueSignedTask (exchangeLib caps labels) (letterTask asked askedLabels n)).alone
      (pairedWithP ceiling labelCeiling) = (.ok (letterEnvelope caps labels n), t') := by
  have hchecks : issueChecks (exchangeLib caps labels) (letterTask asked askedLabels n) = .ok ("\"" ++ letters n ++ "\"") := by
    have hid : validateId "t" "task id" 128 = .ok () := by decide +kernel
    have hsize : ("\"" ++ letters n ++ "\"").utf8ByteSize = n + 2 := by
      rw [String.utf8ByteSize_append, String.utf8ByteSize_append, utf8ByteSize_letters]
      exact (by omega : ∀ m, 1 + m + 1 = m + 2) n
    have hfits : ¬ maxSignedEnvelopeBytes < ("\"" ++ letters n ++ "\"").utf8ByteSize := by omega
    unfold issueChecks
    simp only [letterTask, hid, bind, Except.bind, exchangeLib, reject, Bool.false_eq_true, if_false, if_neg hfits]
  have hout : outbound (exchangeLib caps labels) (letterTask asked askedLabels n) ("\"" ++ letters n ++ "\"") ceiling
      labelCeiling = .ok (newTask "t" "p" ("\"" ++ letters n ++ "\"") caps labels 2,
        textBytes (envelopeText caps labels (letters n))) := by
    unfold outbound
    rcases hwanted : normalizeAllowlist asked "capability" with _ | wanted <;> rw [hwanted] at hcaps
    · cases hcaps
    rcases hwantedLabels : normalizeAllowlist askedLabels "data label" with _ | wantedLabels <;>
      rw [hwantedLabels] at hlabels
    · cases hlabels
    have hcut := Except.ok.inj hcaps
    have hcutLabels := Except.ok.inj hlabels
    simp only [letterTask, hwanted, hwantedLabels, hcut, hcutLabels, bind, Except.bind, exchangeLib, and_self, if_true]
  have hpolicy : activePeerPolicy "p" (pairedWithP ceiling labelCeiling) =
    .ok ((pairedPeer ceiling labelCeiling).publicKeyHex, ceiling, labelCeiling) := rfl
  have hrequest : activePeerPolicy (letterTask asked askedLabels n).peerId (pairedWithP ceiling labelCeiling) = _ := hpolicy
  unfold issueSignedTask
  rw [hchecks]
  rw [Prog.alone_bind, Prog.alone_read, hrequest]
  dsimp only
  rw [hout]
  exact ⟨_, rfl⟩

theorem length_letterEnvelope (n : Nat) : (letterEnvelope [] [] n).payload.length = 23 + n + 57 := by
  have hhead : envelopeHead.utf8ByteSize = 23 := by decide +kernel
  have htail : (envelopeTail [] []).utf8ByteSize = 57 := by decide +kernel
  have hsize : (envelopeText [] [] (letters n)).utf8ByteSize = 23 + n + 57 := by
    simp [envelopeText, utf8ByteSize_letters, hhead, htail]
  exact hsize

theorem pairedPeer_holdsKey (ceiling labelCeiling : List String) :
    HoldsKey (exchangeLib caps labels) (pairedPeer ceiling labelCeiling) () :=
  ⟨List.replicate 32 0, (by decide +kernel : decodeHex 32 ("".pushn '0' 64) "peer public key" = _), rfl⟩

theorem row_pairedWithP (ceiling labelCeiling : List String) :
    (pairedWithP ceiling labelCeiling).peers.row "p" = some (pairedPeer ceiling labelCeiling) := rfl

end Letters

def cutLib : HostLib String Unit Unit := exchangeLib ["read", "write"] ["home", "work"]

def cutTask : IssueDelegatedHostTask String Unit :=
  letterTask [" write", "exec", "read ", "read"] ["work", "mail", "home"] 3

/-- Each ceiling cuts another of the capabilities and of the labels requested. -/
theorem received_iff_letters : ∃ sent t task t',
    (issueSignedTask cutLib cutTask).alone (pairedWithP ["read", "write"] ["home", "work"]) = (.ok sent, t) ∧
    (receiveSignedTask cutLib "p" sent.payload sent.signatureHex 3).alone (pairedWithP ["exec", "read"] ["work"]) =
      (.ok task, t') ∧
    Agrees cutLib cutTask (pairedPeer ["read", "write"] ["home", "work"]) (pairedPeer ["exec", "read"] ["work"]) task t' ∧
    ∀ v, v ∈ task.effectiveCapabilities ↔ v = "read" := by
  have hissued : ∃ t, (issueSignedTask cutLib cutTask).alone (pairedWithP ["read", "write"] ["home", "work"]) =
      (.ok (letterEnvelope ["read", "write"] ["home", "work"] 3), t) :=
    letters_issued (by decide) (by decide +kernel) (by decide +kernel)
  obtain ⟨t, ht⟩ := hissued
  have hlen : (letterEnvelope ["read", "write"] ["home", "work"] 3).payload.length ≤ maxSignedEnvelopeBytes := by
    decide +kernel
  have hread : cutLib.envelopeFromSlice (letterEnvelope ["read", "write"] ["home", "work"] 3).payload =
      .ok ⟨"t", letters 3, ["read", "write"], ["home", "work"]⟩ := by
    simp [cutLib, exchangeLib, letterEnvelope]
  have hA : (pairedWithP ["read", "write"] ["home", "work"]).peers.row cutTask.peerId =
    some (pairedPeer ["read", "write"] ["home", "work"]) := rfl
  have hfree : (pairedWithP ["exec", "read"] ["work"]).tasks.row cutTask.taskId = none := rfl
  obtain ⟨task, t', hreceived, hagrees⟩ := (received_iff cutLib ht hA (row_pairedWithP ["exec", "read"] ["work"]) rfl
    (pairedPeer_holdsKey _ _) hfree).2 ⟨hlen, _, hread, rfl⟩
  refine ⟨_, t, task, t', ht, hreceived, hagrees, fun v => (hagrees.capabilities v).trans ?_⟩
  have htrim : cutTask.requestedCapabilities.map trim = ["write", "exec", "read", "read"] := by decide +kernel
  simp only [htrim, pairedPeer, List.mem_cons, List.not_mem_nil, or_false]
  constructor
  · rintro ⟨-, rfl | rfl, hB⟩
    · rfl
    · exact absurd hB (by decide)
  · rintro rfl
    decide

/-- A task of 262144 bytes is issued, and its envelope is refused. -/
theorem issued_and_refused : (pairedWithP [] []).peers.row "p" = some (pairedPeer [] []) ∧
    HoldsKey (exchangeLib [] []) (pairedPeer [] []) () ∧ (pairedWithP [] []).tasks.row "t" = none ∧ ∃ t',
    (issueSignedTask (exchangeLib [] []) (letterTask [] [] 262142)).alone (pairedWithP [] []) =
      (.ok (letterEnvelope [] [] 262142), t') ∧
    (receiveSignedTask (exchangeLib [] []) "p" (letterEnvelope [] [] 262142).payload
        (letterEnvelope [] [] 262142).signatureHex 3).alone (pairedWithP [] []) =
      (.error (.invalid "signed task exceeds 256 KiB"), pairedWithP [] []) := by
  obtain ⟨t', ht'⟩ := letters_issued (n := 262142) (by decide)
    (rfl : (normalizeAllowlist [] "capability").map (fun l => l.filter (fun v => [].contains v)) = .ok [])
    (rfl : (normalizeAllowlist [] "data label").map (fun l => l.filter (fun v => [].contains v)) = .ok [])
  refine ⟨rfl, pairedPeer_holdsKey [] [], rfl, t', ht', ?_⟩
  have hlen : maxSignedEnvelopeBytes < (letterEnvelope [] [] 262142).payload.length := by
    rw [length_letterEnvelope]
    decide
  unfold receiveSignedTask
  rw [if_pos hlen]
  rfl

end PairedHostStore

end Execlaw
