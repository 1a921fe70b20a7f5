import DocVault.Grants

/-!
# Grants across a key rotation

The signer trims the current kid and the verifiers do not. Where the variable
has no white space around it, what is issued is accepted, in the same
environment and in every later one that still has the kid as the previous one.
-/

namespace DocVault

open PolicyService

/-- One rotation: the current kid is the previous one now, and its secrets are still there. -/
structure Rotates (env env' : ProcessEnv) : Prop where
  previous : env' "GRANT_TOKEN_PREVIOUS_KID" = env "GRANT_TOKEN_CURRENT_KID"
  secrets : ∀ kind : GrantKind, env' (secretName kind.baseName (currentKid env)) =
    env (secretName kind.baseName (currentKid env))

def TrimmedKid (env : ProcessEnv) : Prop :=
  ∀ kid ∈ env "GRANT_TOKEN_CURRENT_KID", trim kid = "" ∨ trim kid = kid

/-- What the policy issues, the verifier of that kind accepts for its actor until it expires,
with every field as issued. -/
def AcceptsIssued (kind : GrantKind) (node : GrantNode) (policy : PolicyEnv) (env : ProcessEnv) : Prop :=
  ∀ (db : PolicyDb) (docId : String) (dto : GrantDto) (request : PolicyRequest) (a : Authorization),
    kind.authorize policy db docId dto request = .ok a →
      (request.now + expiresInSeconds * 1000).natAbs ≤ 8640000000000000 →
      ∀ now < request.now + expiresInSeconds * 1000, ∃ json,
        verifyToken kind node env a.grantToken request.actorId now = .ok json ∧
          readPayload json = some (a.payload request.actorId)

section
variable {kind : GrantKind} {node : GrantNode} {env env' : ProcessEnv} {policy : PolicyEnv}

theorem secretFor_signing (hs : Signs node env kind policy)
    (hkid : ∀ kid, policy.kid = some kid → trim kid ≠ "" ∧ ( env' "GRANT_TOKEN_CURRENT_KID" = some kid ∨
      env' "GRANT_TOKEN_PREVIOUS_KID" = some kid))
    (hsecret : env' (secretName kind.baseName policy.kid) = env (secretName kind.baseName policy.kid)) :
    secretFor kind env' (policy.kid.map .str) = .ok (kind.secret policy) := by
  obtain ⟨hk, hreq⟩ := grantSigningSecret_ok.mp hs.secret
  have hreq' : requireEnv env' (secretName kind.baseName policy.kid) = .ok (kind.secret policy) := by
    unfold requireEnv at hreq ⊢
    rw [hsecret]
    exact hreq
  cases h : policy.kid with
  | none =>
    rw [h] at hreq'
    exact hreq'
  | some kid =>
    rw [h] at hreq' hk
    obtain ⟨_, _, _, hne⟩ := currentKid_some.mp hk.symm
    obtain ⟨htrim, hknown⟩ := hkid kid h
    rw [Option.map_some, secretFor_kid hne]
    exact getSecretForKid_ok.mpr ⟨mem_acceptedKids.mpr ⟨hknown, htrim⟩, hreq'⟩

theorem accepts_of_secret (hs : Signs node env kind policy)
    (hsecret : secretFor kind env' (policy.kid.map .str) = .ok (kind.secret policy)) :
    AcceptsIssued kind node policy env' := by
  intro db docId dto request a ha hclock now hnow
  obtain ⟨htoken, hexpires, _⟩ := authorize_ok ha
  refine ⟨(a.payload request.actorId).json policy.kid, ?_, readPayload_json _ _⟩
  rw [htoken]
  refine (verify_signed hs).mpr ⟨rfl, ⟨_, hsecret, rfl⟩, ?_, rfl⟩
  rw [Authorization.payload, hexpires, getTime_isoString hclock]
  simpa using hnow

/-! ## A kid with white space around it -/

theorem public_issued (kind : GrantKind) (policy : PolicyEnv) :
    ∃ a, kind.authorize policy publicDb "d-1" {} publicRequest = .ok a := by
  cases kind <;> exact ⟨_, rfl⟩

def rotated (env : ProcessEnv) : ProcessEnv := fun name =>
  if name = "GRANT_TOKEN_CURRENT_KID" then none
  else if name = "GRANT_TOKEN_PREVIOUS_KID" then env "GRANT_TOKEN_CURRENT_KID"
  else env name

theorem secretName_ne (kind : GrantKind) (kid : Option String) {name : String} (h : name.toList.head? = some 'G') :
    secretName kind.baseName kid ≠ name := by
  rintro rfl
  cases kind <;> cases kid <;> simp [secretName, GrantKind.baseName, toString] at h

theorem rotates_rotated (env : ProcessEnv) : Rotates env (rotated env) where
  previous := rfl
  secrets kind := by
    have hcurrent :=
      secretName_ne kind (currentKid env) (by rfl : "GRANT_TOKEN_CURRENT_KID".toList.head? = some 'G')
    have hprevious :=
      secretName_ne kind (currentKid env) (by rfl : "GRANT_TOKEN_PREVIOUS_KID".toList.head? = some 'G')
    simp only [rotated, hcurrent, hprevious, if_false]

theorem trimmed_of_accepts (hs : Signs node env kind policy) (h : AcceptsIssued kind node policy (rotated env)) :
    TrimmedKid env := by
  intro value hvalue
  by_contra hne
  obtain ⟨hblank, hspace⟩ := not_or.mp hne
  have hkid : policy.kid = some (trim value) := by
    rw [(grantSigningSecret_ok.mp hs.secret).1]
    exact currentKid_some.mpr ⟨value, hvalue, rfl, hblank⟩
  obtain ⟨a, ha⟩ := public_issued kind policy
  obtain ⟨json, hjson, _⟩ := h publicDb "d-1" {} publicRequest a ha (by decide) 0 (by decide)
  rw [(authorize_ok ha).1] at hjson
  obtain ⟨_, ⟨secret, hsecret, _⟩, _⟩ := (verify_signed hs).mp hjson
  rw [hkid, Option.map_some, secretFor_kid hblank] at hsecret
  obtain ⟨hknown, _⟩ := mem_acceptedKids.mp (getSecretForKid_ok.mp hsecret).1
  rcases hknown with hcurrent | hprevious
  · cases hcurrent
  · exact hspace (Option.some.inj (hprevious.symm.trans hvalue))

/-- Grants of either kind are accepted, now and after one rotation, if and only if the current kid is written
without white space around it. -/
theorem issued_accepted_iff (hs : Signs node env kind policy) :
    (∀ env', env' = env ∨ Rotates env env' → AcceptsIssued kind node policy env') ↔ TrimmedKid env := by
  constructor
  · exact fun h => trimmed_of_accepts hs (h (rotated env) (.inr (rotates_rotated env)))
  · intro ht env' hlater
    have hk : policy.kid = currentKid env := (grantSigningSecret_ok.mp hs.secret).1
    refine accepts_of_secret hs (secretFor_signing hs (fun kid hkid => ?_) ?_)
    · obtain ⟨value, hvalue, rfl, hne⟩ := currentKid_some.mp (hk.symm.trans hkid)
      have hsame : trim value = value := (ht value hvalue).resolve_left hne
      rw [hsame] at hne ⊢
      refine ⟨hsame.symm ▸ hne, ?_⟩
      rcases hlater with rfl | hr
      · exact .inl hvalue
      · exact .inr (hr.previous.trans hvalue)
    · rw [hk]
      rcases hlater with rfl | hr
      · rfl
      · exact hr.secrets kind

end

theorem issued_accepted_sample : Signs grantNode (processEnv "k1") .download signingPolicy ∧
    ∀ env', env' = processEnv "k1" ∨ Rotates (processEnv "k1") env' →
    AcceptsIssued .download grantNode signingPolicy env' :=
  ⟨signs_k1 .download, (issued_accepted_iff (signs_k1 .download)).mpr fun _ hkid =>
    .inr (Option.some.inj hkid ▸ by decide)⟩

-- The signer takes the kid for `k1`.
theorem spaced_kid_refused : ¬ ∀ (kind : GrantKind) (node : GrantNode) (env : ProcessEnv) (policy : PolicyEnv),
    Signs node env kind policy → ∀ env', env' = env ∨ Rotates env env' → AcceptsIssued kind node policy env' := by
  intro h
  have hs : Signs grantNode (processEnv " k1 ") .download signingPolicy := ⟨by rfl, rfl, rfl⟩
  have ht := trimmed_of_accepts hs (h .download grantNode (processEnv " k1 ") signingPolicy hs _
    (.inr (rotates_rotated _))) " k1 " rfl
  exact absurd ht (by decide)

end DocVault
