import AnythingTool.Library.Checksum
import AnythingTool.Daemon.HashInput
import AnythingTool.Daemon.Progress

/-!
# Stored requests that were damaged

`handle_admin_execute` computes the hash of what is stored again and compares it with the
stored hash. A round of the hash loses neither the hash nor the byte, so a stored request of
which one byte of the method, the parameters or the session has become another one, no NUL,
is never run, whatever is served from then on and whatever has changed in the fields that are
not hashed; the same holds for a changed hash. The execution of it is answered with
`request_changed`.
-/

namespace AnythingTool

open CText Checksum

/-! ## The hash -/

/-- The multiplier is odd, so a product can be undone. -/
theorem eq_of_mul_eq {hash hash' : UInt64} (h : hash * 1099511628211 = hash' * 1099511628211) :
    hash = hash' := by
  have hinverse : (1099511628211 : UInt64) * 0xce965057aff6957b = 1 := by decide
  have hmul := congrArg (· * (0xce965057aff6957b : UInt64)) h
  simpa only [UInt64.mul_assoc, hinverse, UInt64.mul_one] using hmul

theorem hashByte_lossless : Lossless hashByte where
  state c := by
    intro hash hash' h
    exact (UInt64.xor_left_inj _).mp (eq_of_mul_eq h)
  letter hash := by
    intro c c' h
    exact UInt8.toUInt64_inj.mp ((UInt64.xor_right_inj _).mp (eq_of_mul_eq h))

/-! ## Damage -/

/-- The stored request fits its hash. -/
def Sound (e : PendingRequest) : Prop := (pendingToRequest e).requestHash = e.requestHash

/-- One byte of a hashed text has become another one, or the hash itself has changed. What has
happened to the other fields is left open. -/
inductive Damage (e e' : PendingRequest) : Prop
  | method (hbyte : OneLetter e.method.bytes e'.method.bytes) (hparams : e'.params = e.params)
      (hsession : e'.sessionId = e.sessionId) (hhash : e'.requestHash = e.requestHash)
  | params (hmethod : e'.method = e.method) (hbyte : OneLetter e.params.bytes e'.params.bytes)
      (hsession : e'.sessionId = e.sessionId) (hhash : e'.requestHash = e.requestHash)
  | session (hmethod : e'.method = e.method) (hparams : e'.params = e.params)
      (hbyte : OneLetter e.sessionId.bytes e'.sessionId.bytes)
      (hhash : e'.requestHash = e.requestHash)
  | hash (hmethod : e'.method = e.method) (hparams : e'.params = e.params)
      (hsession : e'.sessionId = e.sessionId) (hhash : e'.requestHash ≠ e.requestHash)

theorem pendingToRequest_hash (e : PendingRequest) :
    (pendingToRequest e).requestHash =
      (hashInput e.method.bytes e.params.bytes e.sessionId.bytes).foldl hashByte
        1469598103934665603 := by
  rw [← anythingRpcHashRequest_eq]
  simp only [pendingToRequest, CString.snprintf_self]

theorem Damage.not_sound {e e' : PendingRequest} (h : Damage e e') (hsound : Sound e) :
    ¬ Sound e' := by
  have hdetects := fun {s t : Bytes} (hst : OneLetter s t) =>
    hashByte_lossless.detects 1469598103934665603 hst
  unfold Sound at hsound ⊢
  rw [pendingToRequest_hash, hashInput_bytes] at hsound ⊢
  cases h with
  | method hbyte hparams hsession hhash =>
      rw [hhash, ← hsound, hparams, hsession]
      exact (hdetects (hbyte.append_right _)).symm
  | params hmethod hbyte hsession hhash =>
      rw [hhash, ← hsound, hmethod, hsession]
      exact (hdetects (((hbyte.append_right _).append_left _).append_left _)).symm
  | session hmethod hparams hbyte hhash =>
      rw [hhash, ← hsound, hmethod, hparams]
      exact (hdetects ((((hbyte.append_left _).append_left _).append_left _).append_left _)).symm
  | hash hmethod hparams hsession hhash =>
      rw [hmethod, hparams, hsession, hsound]
      exact hhash.symm

/-! ## Serving with a damaged store -/

section Serving

variable {config : Config} {approvals : ApprovalStore} {input : Input} {ref : PendingRef}
  {slot : ℕ} {e : PendingRequest}

/-- The answer to the execution of a granted request that does not fit its hash. -/
theorem handleRequest_changed
    (haddr : Addresses config approvals input (ascii "approval.execute") ref)
    (hstatus : ref.request.status = .granted) (hnow : input.env.now ≤ ref.request.expiresAt)
    (hunsound : ¬ Sound ref.request) :
    ∃ request, anythingRpcParse input.body = .ok request ∧
      handleRequest config approvals input =
        ⟨approvals, [errorResponse request.id.bytes (-32011) (ascii "request_changed")
          (ascii "approval cannot execute") []]⟩ := by
  obtain ⟨request, requestId, hparse, hmethod, hid, hfind⟩ := haddr.names
  have hchanged : anythingApprovalValidateForExecute (some ref)
      (pendingToRequest ref.request).requestHash input.env.now = .error .requestChanged := by
    rw [anythingApprovalValidateForExecute.eq_def]
    simp only [hstatus, ne_eq, not_true_eq_false, if_false, not_lt.mpr hnow]
    rw [if_pos (Ne.symm hunsound)]
  have hroute : ascii "approval.execute" ≠ ascii "approval.list" := by decide
  refine ⟨request, hparse, ?_⟩
  simp only [handleRequest, haddr.plane, handleAdminRequest, hparse, haddr.admin, Bool.not_true,
    Bool.false_eq_true, if_false, routeAdminRequest, hmethod, hroute, if_true,
    handleAdminExecute, hid, hfind, hchanged]
  rfl

/-- A request that does not fit its hash stays so, and is not run. -/
theorem unsound_step (hstored : approvals.pending[slot]? = some e) (hunsound : ¬ Sound e) :
    (∃ e', (handleRequest config approvals input).approvals.pending[slot]? = some e' ∧
        ¬ Sound e') ∧
      ∀ result, .sysInfo slot result ∉ (handleRequest config approvals input).effects := by
  have hmove := handlerMove config approvals input
  generalize hhandled : handleRequest config approvals input = handled at hmove ⊢
  constructor
  · have hslot := slotMove hmove slot
    rw [hstored] at hslot
    generalize handled.approvals.pending[slot]? = o at hslot ⊢
    cases hslot with
    | kept => exact ⟨e, rfl, hunsound⟩
    | granted => exact ⟨_, rfl, hunsound⟩
    | rejected => exact ⟨_, rfl, hunsound⟩
    | executed => exact ⟨_, rfl, hunsound⟩
  · intro result hmem
    cases hmove with
    | quiet hquiet => exact hquiet _ hmem
    | added => simp at hmem
    | granted => simp at hmem
    | rejected => simp at hmem
    | @ran ref w r haddr hstatus hnow hpolicy hstarted =>
        have hslot : slot = ref.slot := by
          simp only [List.mem_cons, reduceCtorEq, false_or, List.not_mem_nil, or_false,
            Effect.sysInfo.injEq] at hmem
          exact hmem.1
        have heq : e = ref.request :=
          Option.some.inj (hstored.symm.trans (hslot ▸ haddr.stored))
        obtain ⟨request, -, hchanged⟩ :=
          handleRequest_changed haddr hstatus hnow (heq ▸ hunsound)
        have heffects := congrArg Handled.effects (hhandled.symm.trans hchanged)
        simp [errorResponse] at heffects

end Serving

/-- The state in which a stored request has been overwritten. -/
def DaemonState.damaged (state : DaemonState) (ref : PendingRef) : DaemonState :=
  { state with approvals := state.approvals.write ref }

theorem unsound_run {config : Config} {slot : ℕ} {state : DaemonState} {after : List Input}
    {e : PendingRequest} (hconfig : state.config = config)
    (hstored : state.approvals.pending[slot]? = some e) (hunsound : ¬ Sound e) :
    ∀ r ∈ (daemon config).historyFrom state after, ∃ e', r.before.config = config ∧
      r.before.approvals.pending[slot]? = some e' ∧ ¬ Sound e' ∧
      r.output = (handleRequest config r.before.approvals r.input).effects := by
  induction after generalizing state e with
  | nil => simp
  | cons input after ih =>
      intro r hr
      rw [Transition.Machine.historyFrom_cons, List.mem_cons] at hr
      rcases hr with rfl | hr
      · refine ⟨e, hconfig, hstored, hunsound, ?_⟩
        rw [← hconfig]
        rfl
      · obtain ⟨⟨e', hstored', hunsound'⟩, -⟩ :=
          @unsound_step state.config _ input _ _ hstored hunsound
        have hnext : ((daemon config).step state input).1.approvals.pending[slot]? = some e' :=
          hstored'
        have hconfig' : ((daemon config).step state input).1.config = config := hconfig
        exact ih hconfig' hnext hunsound' r hr

/-- A stored request with one byte of its texts or its hash changed is not run, whatever is
served from then on, and its execution is answered with what has happened. -/
theorem damage_detected (config : Config) (past after : List Input) (slot : ℕ)
    (e e' : PendingRequest)
    (hstored : ((daemon config).run past).approvals.pending[slot]? = some e)
    (hdamage : Damage e e') :
    ∀ r ∈ (daemon config).historyFrom (((daemon config).run past).damaged ⟨slot, e'⟩) after,
      (∀ result, .sysInfo slot result ∉ r.output) ∧
        ∀ ref, Addresses config r.before.approvals r.input (ascii "approval.execute") ref →
          ref.slot = slot → ref.request.status = .granted →
          r.input.env.now ≤ ref.request.expiresAt →
          ∃ request, anythingRpcParse r.input.body = .ok request ∧
            r.output = [errorResponse request.id.bytes (-32011) (ascii "request_changed")
              (ascii "approval cannot execute") []] := by
  obtain ⟨_, -, -, _, hbound⟩ := bound_run config past slot e hstored
  have hsound : Sound e := pendingToRequest_requestHash hbound
  have hwritten : (((daemon config).run past).damaged ⟨slot, e'⟩).approvals.pending[slot]? =
      some e' := getElem?_write_self e' hstored
  have hconfig : (((daemon config).run past).damaged ⟨slot, e'⟩).config = config :=
    daemon_run_config past
  intro r hr
  obtain ⟨e'', -, hstored', hunsound, houtput⟩ :=
    unsound_run hconfig hwritten (hdamage.not_sound hsound) r hr
  rw [houtput]
  refine ⟨(unsound_step hstored' hunsound).2, ?_⟩
  rintro ref haddr rfl hstatus hnow
  obtain rfl := Option.some.inj (hstored'.symm.trans haddr.stored)
  obtain ⟨request, hparse, hchanged⟩ := handleRequest_changed haddr hstatus hnow hunsound
  exact ⟨request, hparse, congrArg Handled.effects hchanged⟩

namespace Sample

/-- The stored request whose method is another one. -/
def misnamed (e : PendingRequest) : PendingRequest :=
  { e with method := .snprintf 64 (ascii "sys.inft") }

theorem misnamed_damage {e : PendingRequest} (h : e.method.bytes = ascii "sys.info") :
    Damage e (misnamed e) := by
  have hmethod : (misnamed e).method.bytes = ascii "sys.inft" := rfl
  refine .method ?_ rfl rfl rfl
  rw [h, hmethod]
  exact ⟨ascii "sys.inf", 0x6F, 0x74, [], by decide, by decide, by decide⟩

end Sample

/-- The request is damaged between its approval and its execution. -/
theorem damage_detected_sample : ∃ e,
    ((daemon Sample.config).run [Sample.ask Sample.written,
        Sample.ruling Sample.operator "approval.approve" Sample.written]).approvals.pending[0]? =
      some e ∧
      ∀ r ∈ (daemon Sample.config).historyFrom (((daemon Sample.config).run
        [Sample.ask Sample.written,
          Sample.ruling Sample.operator "approval.approve" Sample.written]).damaged
            ⟨0, Sample.misnamed e⟩)
        [Sample.ruling Sample.operator "approval.execute" Sample.written],
        ∀ result, .sysInfo 0 result ∉ r.output := by
  obtain ⟨request, hadmits⟩ := Sample.exists_admits_ask
  have hfiled := @filed_run Sample.config _ [] request hadmits
  have hcall : AdminCall Sample.config
      (Sample.ruling Sample.operator "approval.approve" Sample.written)
      (ascii "approval.approve") (slotId 0) :=
    Sample.adminCall_ruling (by decide +kernel) (by decide +kernel)
  have htime : (Sample.ruling Sample.operator "approval.approve" Sample.written).env.now ≤
      (Sample.ask Sample.written).env.now + Sample.config.approvalTtlSeconds := by decide
  have hother : (Sample.ask Sample.written).peer ≠
      (Sample.ruling Sample.operator "approval.approve" Sample.written).peer := by decide
  have hgranted := @granted_run Sample.config _ _ _ [] [] _ hfiled hcall rfl htime hother (by simp)
  have hmethod : (admitted Sample.config anythingApprovalStoreInit (Sample.ask Sample.written)
      request).method.bytes = ascii "sys.info" := by
    rw [admitted_method, hadmits.method]
  refine ⟨_, hgranted, fun r hr => ?_⟩
  exact (damage_detected Sample.config _ _ 0 _ _ hgranted (Sample.misnamed_damage hmethod) r hr).1

end AnythingTool
