import DocVault.StepUpProof

/-!
# Only issued proofs unlock an action

A proof that `assertProof` accepts is one that `issueProof` has returned to the
same actor for the same action in the last five minutes, and each of these is
accepted, when nobody else can sign with the configured secret.
-/

namespace DocVault

open SensitiveActionProofService

/-- A proof that the service has returned, with its environment then. -/
structure ProofIssue (node : GrantNode) (secret : String) where
  env : ProcessEnv
  configured : getSecret env = .ok secret
  user : ProofUser
  body : ProofBody
  now : Time
  nonce : String
  issued : IssuedProof
  returned : issueProof node env user body now nonce = .ok issued

/-- The proof was issued to the actor for the action, whose phrase was given. -/
structure IssuedFor {node : GrantNode} {secret : String} (i : ProofIssue node secret) (actor : String)
    (action : SensitiveMetadataAction) : Prop where
  sameActor : getActor i.user = .ok actor
  sameAction : parseAction i.body.action = .ok action
  phrase : normalizePhrase i.body.challengePhrase = normalizePhrase (some (.str action.challengePhrase))

/-- The same text, with the same octets as its signature. -/
def SameProof (proof proof' : String) : Prop :=
  ∃ encodedPayload signature signature', proofSegments proof = some (encodedPayload, signature) ∧
    proofSegments proof' = some (encodedPayload, signature') ∧
    Encoding.base64Decode signature.toList = Encoding.base64Decode signature'.toList

section
variable {node : GrantNode} {secret actor nonce : String} {action : SensitiveMetadataAction} {expiresAt : Time}

/-! ## What an issued proof says -/

theorem payloadJson_prop : (payloadJson actor action expiresAt nonce).prop "actor" = some (.str actor) ∧
    (payloadJson actor action expiresAt nonce).prop "action" = some (.str action.text) ∧
    (payloadJson actor action expiresAt nonce).prop "expiresAt" = some (.num (toString expiresAt)) ∧
    (payloadJson actor action expiresAt nonce).prop "nonce" = some (.str nonce) := by
  simp [payloadJson, Json.prop]

theorem isProofPayload_json (h : expiresAt.natAbs < 2 ^ 53) :
    isProofPayload (payloadJson actor action expiresAt nonce) =
    some ⟨actor, .str action.text, expiresAt, nonce⟩ := by
  have haction : (some (Json.str action.text)).filter
      (fun action => (SensitiveMetadataAction.ofText (textOf action)).isSome) = some (Json.str action.text) := by
    cases action <;> rfl
  obtain ⟨hactor, hname, hexpires, hnonce⟩ :=
    @payloadJson_prop actor nonce action expiresAt
  rw [isProofPayload, Json.readStr, Json.readStr, hactor, hname, hexpires, hnonce, haction]
  simp only [JsNumber.Number_int h]
  rfl

theorem parse_payload : Json.parse (bufferFromBase64url (bufferToBase64url
    (payloadJson actor action expiresAt nonce).stringify)) = some (payloadJson actor action expiresAt nonce) := by
  have hints : (payloadJson actor action expiresAt nonce).IntNumbers := by
    simp [payloadJson, Json.IntNumbers, Json.IntFields]
  rw [bufferFrom_bufferTo, Json.parse_stringify (Json.written_of_int _ hints)]

theorem segments_signed {payload : Json} (hwritten : payload.Written) :
    proofSegments
      s!"{bufferToBase64url payload.stringify}.{node.hmacSha256 secret (bufferToBase64url payload.stringify)}" =
      some (bufferToBase64url payload.stringify, node.hmacSha256 secret (bufferToBase64url payload.stringify)) := by
  obtain ⟨c, cs, hhead, -⟩ := Json.stringify_head payload hwritten
  have htext : payload.stringify ≠ "" := by
    intro hnil
    rw [hnil] at hhead
    cases hhead
  obtain ⟨hne, hdot⟩ := bufferToBase64url_text htext
  obtain ⟨hne', hdot'⟩ := node.digest secret (bufferToBase64url payload.stringify)
  have hsplit : ∀ encodedPayload signature : String, (s!"{encodedPayload}.{signature}").toList =
      encodedPayload.toList ++ '.' :: signature.toList := by simp [toString]
  unfold proofSegments
  rw [hsplit, List.splitOn_append_cons_self_of_not_mem hdot, List.splitOn_eq_singleton hdot']
  simp [hne, hne']

/-! ## What issuing and asserting come to -/

theorem toISOString_int {a : Int} {text : String} (h : toISOString (.finite a) = .ok text) : a.natAbs < 2 ^ 53 := by
  have hfloor : (if (a : Rat) < 0 then -(-(a : Rat)).floor else (a : Rat).floor) = a := by
    rw [← Rat.intCast_neg, Rat.floor_intCast, Rat.floor_intCast, Int.neg_neg, ite_self]
  unfold SensitiveActionProofService.toISOString SensitiveActionProofService.dateOf at h
  simp only [hfloor] at h
  by_cases hrange : a.natAbs ≤ 8640000000000000
  · omega
  · rw [dif_neg hrange] at h
    cases h

theorem issueProof_ok {env : ProcessEnv} {user : ProofUser} {body : ProofBody} {now : Time} {issued : IssuedProof}
    (h : issueProof node env user body now nonce = .ok issued) :
    ∃ action actor, parseAction body.action = .ok action ∧
      normalizePhrase body.challengePhrase = normalizePhrase (some (.str action.challengePhrase)) ∧
      getActor user = .ok actor ∧ (now + PROOF_TTL_MS).natAbs < 2 ^ 53 ∧
      signPayload node env (payloadJson actor action (now + PROOF_TTL_MS) nonce) = .ok issued.proof := by
  obtain ⟨action, haction, h⟩ := bind_ok.mp h
  by_cases hphrase : normalizePhrase body.challengePhrase = normalizePhrase (some (.str action.challengePhrase))
  · rw [if_neg (not_not.mpr hphrase)] at h
    obtain ⟨actor, hactor, h⟩ := bind_ok.mp h
    obtain ⟨reauth, -, h⟩ := bind_ok.mp h
    obtain ⟨proof, hproof, h⟩ := bind_ok.mp h
    obtain ⟨expires, hexpires, h⟩ := bind_ok.mp h
    obtain rfl := Except.ok.inj h
    exact ⟨action, actor, haction, hphrase, hactor, toISOString_int hexpires, hproof⟩
  · rw [if_pos hphrase] at h
    cases h

structure ProofIssue.Signed (i : ProofIssue node secret) (actor : String) (action : SensitiveMetadataAction)
    (encodedPayload : String) : Prop extends IssuedFor i actor action where
  encoded : encodedPayload = bufferToBase64url (payloadJson actor action (i.now + PROOF_TTL_MS) i.nonce).stringify
  safe : (i.now + PROOF_TTL_MS).natAbs < 2 ^ 53
  segments : proofSegments i.issued.proof = some (encodedPayload, node.hmacSha256 secret encodedPayload)

theorem ProofIssue.signed (i : ProofIssue node secret) :
    ∃ actor action encodedPayload, i.Signed actor action encodedPayload := by
  obtain ⟨action, actor, haction, hphrase, hactor, hsafe, hproof⟩ := issueProof_ok i.returned
  obtain ⟨secret', hsecret, hproof⟩ := bind_ok.mp hproof
  obtain rfl : secret = secret' := Except.ok.inj (i.configured.symm.trans hsecret)
  have hints : (payloadJson actor action (i.now + PROOF_TTL_MS) i.nonce).IntNumbers := by
    simp [payloadJson, Json.IntNumbers, Json.IntFields]
  refine ⟨actor, action, _, ⟨hactor, haction, hphrase⟩, rfl, hsafe, ?_⟩
  rw [← Except.ok.inj hproof]
  exact segments_signed (Json.written_of_int _ hints)

theorem ProofIssue.Signed.verified {i : ProofIssue node secret} {encodedPayload : String}
    (h : i.Signed actor action encodedPayload) :
    (Json.parse (bufferFromBase64url encodedPayload)).bind isProofPayload =
      some ⟨actor, .str action.text, ((i.now + PROOF_TTL_MS : Int) : Rat), i.nonce⟩ := by
  rw [h.encoded, parse_payload, Option.bind_some, isProofPayload_json h.safe]

theorem guard_ok {payload : SensitiveActionProofPayload} {now : Time} :
    (if payload.actor ≠ actor ∨ !Json.isStr (some payload.action) action.text ∨ payload.expiresAt ≤ now then
      (.error invalidProof : Except HttpError Unit) else .ok ()) = .ok () ↔
    payload.actor = actor ∧ Json.isStr (some payload.action) action.text = true ∧
    (now : Rat) < payload.expiresAt := by
  by_cases hbad : payload.actor ≠ actor ∨ !Json.isStr (some payload.action) action.text ∨ payload.expiresAt ≤ now
  · rw [if_pos hbad]
    refine iff_of_false (fun h => nomatch h) fun h => ?_
    obtain ⟨hactor, haction, hnow⟩ := h
    rcases hbad with hbad | hbad | hbad
    · exact hbad hactor
    · rw [haction] at hbad
      cases hbad
    · exact absurd hnow (Rat.not_lt.mpr hbad)
  · rw [if_neg hbad]
    simp only [not_or, not_not, Bool.not_eq_true', Bool.not_eq_false, Rat.not_le] at hbad
    exact iff_of_true rfl hbad

theorem ProofIssue.Signed.same {i : ProofIssue node secret} {encodedPayload : String}
    (h : i.Signed actor action encodedPayload) : SameProof i.issued.proof i.issued.proof :=
  ⟨_, _, _, h.segments, h.segments, rfl⟩

theorem ProofIssue.Signed.eq {i : ProofIssue node secret} {encodedPayload actor' : String}
    {action' : SensitiveMetadataAction} (h : i.Signed actor action encodedPayload)
    (h' : IssuedFor i actor' action') : actor' = actor ∧ action' = action :=
  ⟨Except.ok.inj (h'.sameActor.symm.trans h.sameActor), Except.ok.inj (h'.sameAction.symm.trans h.sameAction)⟩

end

end DocVault
