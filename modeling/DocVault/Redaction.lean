import DocVault.Js

/-!
# Secret fields

Three packages take the secret fields out of a value before it leaves them,
each with a copy of the list of fields and of the recursion. All three leave
every path that passes through no secret field, except that the notifications
make an empty object of whatever is not an object.
-/

namespace DocVault

namespace Json

/-! ## Paths -/

inductive PathStep where
  | key (name : String)
  | index (i : Nat)

def get? : Json → List PathStep → Option Json
  | v, [] => some v
  | .obj fields, .key name :: path => (fields.lookup name).bind fun v => get? v path
  | .arr l, .index i :: path => (l[i]?).bind fun v => get? v path
  | _, _ => none

/-- The same scalar, an array of as many elements, or an object. -/
def SameNode : Json → Json → Prop
  | .arr l, .arr m => l.length = m.length
  | .obj _, .obj _ => True
  | v, w => v = w

/-! ## The recursion -/

section
variable (excluded : List String)

mutual
/-- The value without the fields of some names. The keys of an object are distinct, so each
assignment adds a field; an assignment to `__proto__` adds none. -/
def redact : Json → Json
  | .arr l => .arr (redactElems l)
  | .obj fields => .obj (redactFields fields)
  | .null => .null
  | .bool b => .bool b
  | .num text => .num text
  | .str s => .str s
def redactElems : List Json → List Json
  | [] => []
  | x :: l => redact x :: redactElems l
def redactFields : List (String × Json) → List (String × Json)
  | [] => []
  | (key, nestedValue) :: fields =>
    if excluded.contains key then redactFields fields
    else if key = "__proto__" then redactFields fields
    else (key, redact nestedValue) :: redactFields fields
end

end

end Json

/-! ## The three packages -/

namespace MetadataProxyController

def EVIDENCE_PACKET_SENSITIVE_FIELD_NAMES : List String :=
  ["fileContent", "objectKey", "storagePath", "presignedUrl", "grantToken", "downloadToken"]

def sanitizeEvidencePacket : Json → Json := Json.redact EVIDENCE_PACKET_SENSITIVE_FIELD_NAMES

end MetadataProxyController

namespace NotificationService

def NOTIFICATION_SENSITIVE_FIELD_NAMES : List String :=
  ["fileContent", "objectKey", "storagePath", "presignedUrl", "grantToken", "downloadToken"]

def sanitizeNotificationValue : Json → Json := Json.redact NOTIFICATION_SENSITIVE_FIELD_NAMES

def sanitizeNotificationMetadata (value : Json) : Json :=
  match sanitizeNotificationValue value with
  | .obj fields => .obj fields
  | _ => .obj []

end NotificationService

namespace EvidenceCenter

def EVIDENCE_CENTER_EXCLUDED_SENSITIVE_FIELDS : List String :=
  ["fileContent", "objectKey", "storagePath", "presignedUrl", "grantToken", "downloadToken"]

def stripSensitiveEvidenceFields : Json → Json := Json.redact EVIDENCE_CENTER_EXCLUDED_SENSITIVE_FIELDS

end EvidenceCenter

namespace Json
variable {excluded : List String}

/-! ## What is left -/

/-- The field is none of the names. A property `__proto__` cannot be assigned. -/
def OpenKey (excluded : List String) (name : String) : Prop := name ∉ excluded ∧ name ≠ "__proto__"

def Open (excluded : List String) (path : List PathStep) : Prop := ∀ name, .key name ∈ path → OpenKey excluded name

theorem open_key {name : String} {path : List PathStep} :
    Open excluded (.key name :: path) ↔ OpenKey excluded name ∧ Open excluded path := by
  simp only [Open, List.mem_cons, PathStep.key.injEq, or_imp, forall_and, forall_eq]

theorem open_index {i : Nat} {path : List PathStep} : Open excluded (.index i :: path) ↔ Open excluded path := by
  simp [Open]

theorem redactElems_eq (l : List Json) : redactElems excluded l = l.map (redact excluded) := by
  induction l with
  | nil => rfl
  | cons x l ih => rw [redactElems, ih, List.map_cons]

theorem redactFields_closed {key : String} (h : ¬OpenKey excluded key) (v : Json) (fields : List (String × Json)) :
    redactFields excluded ((key, v) :: fields) = redactFields excluded fields := by
  rw [redactFields]
  by_cases hex : key ∈ excluded
  · rw [if_pos (List.contains_iff_mem.mpr hex)]
  · have hproto : key = "__proto__" := by
      by_contra hne
      exact h ⟨hex, hne⟩
    rw [if_neg (mt List.contains_iff_mem.mp hex), if_pos hproto]

theorem redactFields_open {key : String} (h : OpenKey excluded key) (v : Json) (fields : List (String × Json)) :
    redactFields excluded ((key, v) :: fields) = (key, redact excluded v) :: redactFields excluded fields := by
  rw [redactFields, if_neg (mt List.contains_iff_mem.mp h.1), if_neg h.2]

theorem lookup_redact {name : String} (h : OpenKey excluded name) (fields : List (String × Json)) :
    (redactFields excluded fields).lookup name = (fields.lookup name).map (redact excluded) := by
  induction fields with
  | nil => rfl
  | cons f fields ih =>
    obtain ⟨key, v⟩ := f
    by_cases hname : name = key
    · subst hname
      rw [redactFields_open h]
      simp
    · have hskip : ∀ (w : Json) (fields : List (String × Json)),
        ((key, w) :: fields).lookup name = fields.lookup name := by
        intro w fields
        rw [List.lookup_cons, beq_false_of_ne hname]
      rw [hskip]
      by_cases hkey : OpenKey excluded key
      · rw [redactFields_open hkey, hskip, ih]
      · rw [redactFields_closed hkey, ih]

theorem openKey_of_mem {fields : List (String × Json)} {f : String × Json} (h : f ∈ redactFields excluded fields) :
    OpenKey excluded f.1 := by
  induction fields with
  | nil => nomatch h
  | cons g fields ih =>
    obtain ⟨key, v⟩ := g
    by_cases hkey : OpenKey excluded key
    · rw [redactFields_open hkey] at h
      rcases List.mem_cons.mp h with rfl | h
      · exact hkey
      · exact ih h
    · rw [redactFields_closed hkey] at h
      exact ih h

/-- An open path leads to what is left of the value it led to. -/
theorem get?_redact {path : List PathStep} (h : Open excluded path) (v : Json) :
    (redact excluded v).get? path = (v.get? path).map (redact excluded) := by
  induction path generalizing v with
  | nil => cases v <;> rfl
  | cons step path ih =>
    cases step with
    | key name =>
      obtain ⟨hname, hpath⟩ := open_key.mp h
      cases v with
      | obj fields =>
        simp only [redact, get?, lookup_redact hname, Option.map_bind, Option.bind_map]
        exact congrArg (Option.bind _) (funext (ih hpath))
      | _ => rfl
    | index i =>
      cases v with
      | arr l =>
        simp only [redact, get?, redactElems_eq, List.getElem?_map, Option.map_bind, Option.bind_map]
        exact congrArg (Option.bind _) (funext (ih (open_index.mp h)))
      | _ => rfl

theorem open_of_get? {path : List PathStep} {v w : Json} (h : (redact excluded v).get? path = some w) :
    Open excluded path := by
  induction path generalizing v with
  | nil => simp [Open]
  | cons step path ih =>
    cases step with
    | key name =>
      cases v with
      | obj fields =>
        simp only [redact, get?, Option.bind_eq_some_iff] at h
        obtain ⟨x, hx, hw⟩ := h
        have hmem : (name, x) ∈ redactFields excluded fields := by
          obtain ⟨before, after, hfields, -⟩ := List.lookup_eq_some_iff.mp hx
          simp [hfields]
        have hname : OpenKey excluded name := openKey_of_mem hmem
        rw [lookup_redact hname, Option.map_eq_some_iff] at hx
        obtain ⟨v', -, rfl⟩ := hx
        exact open_key.mpr ⟨hname, ih hw⟩
      | _ => nomatch h
    | index i =>
      cases v with
      | arr l =>
        simp only [redact, get?, redactElems_eq, List.getElem?_map, Option.bind_map, Option.bind_eq_some_iff] at h
        obtain ⟨x, -, hw⟩ := h
        exact open_index.mpr (ih hw)
      | _ => nomatch h

theorem sameNode_redact (v : Json) : SameNode v (redact excluded v) := by
  cases v with
  | arr l => simp [redact, SameNode, redactElems_eq]
  | obj fields => trivial
  | _ => rfl

mutual
theorem redact_redact : ∀ v : Json, redact excluded (redact excluded v) = redact excluded v
  | .null => rfl
  | .bool _ => rfl
  | .num _ => rfl
  | .str _ => rfl
  | .arr l => congrArg Json.arr (redactElems_redactElems l)
  | .obj fields => congrArg Json.obj (redactFields_redactFields fields)
theorem redactElems_redactElems : ∀ l : List Json,
    redactElems excluded (redactElems excluded l) = redactElems excluded l
  | [] => rfl
  | x :: l => by rw [redactElems, redactElems, redact_redact x, redactElems_redactElems l]
theorem redactFields_redactFields : ∀ fields : List (String × Json),
    redactFields excluded (redactFields excluded fields) = redactFields excluded fields
  | [] => rfl
  | (key, v) :: fields => by
    by_cases hkey : OpenKey excluded key
    · rw [redactFields_open hkey, redactFields_open hkey, redact_redact v, redactFields_redactFields fields]
    · rw [redactFields_closed hkey, redactFields_redactFields fields]
end

end Json

/-! ## The three agree -/

def SENSITIVE_KEYS : List String :=
  ["fileContent", "objectKey", "storagePath", "presignedUrl", "grantToken", "downloadToken"]

open Json MetadataProxyController NotificationService EvidenceCenter

/-- Nothing secret is left, and sanitizing again takes nothing more. -/
structure Redacted (sanitize : Json → Json) (v : Json) : Prop where
  complete : ∀ path w, (sanitize v).get? path = some w → Open SENSITIVE_KEYS path
  idempotent : sanitize (sanitize v) = sanitize v

/-- An open path leads to the same scalar as before, an array of as many elements or an object, or to nothing
as before. -/
structure Redacts (sanitize : Json → Json) (v : Json) : Prop extends Redacted sanitize v where
  minimal : ∀ path, Open SENSITIVE_KEYS path → Option.Rel SameNode (v.get? path) ((sanitize v).get? path)

theorem redacts (v : Json) : Redacts (redact SENSITIVE_KEYS) v where
  complete _ _ h := open_of_get? h
  idempotent := redact_redact v
  minimal path h := by
    rw [get?_redact h]
    cases v.get? path with
    | none => exact .none
    | some w => exact .some (sameNode_redact w)

theorem sanitizeNotificationMetadata_other {v : Json} (h : ∀ fields, v ≠ .obj fields) :
    sanitizeNotificationMetadata v = .obj [] := by
  cases v with
  | obj fields => exact absurd rfl (h fields)
  | _ => rfl

theorem redacts_obj (fields : List (String × Json)) : Redacts sanitizeNotificationMetadata (.obj fields) where
  complete _ _ h := open_of_get? (v := .obj fields) h
  idempotent := redact_redact (.obj fields)
  minimal := (redacts (.obj fields)).minimal

theorem redacted_notification (v : Json) : Redacted sanitizeNotificationMetadata v := by
  by_cases hobj : ∃ fields, v = .obj fields
  · obtain ⟨fields, rfl⟩ := hobj
    exact (redacts_obj fields).toRedacted
  · have hempty := sanitizeNotificationMetadata_other fun fields hv => hobj ⟨fields, hv⟩
    constructor
    · intro path w h
      rw [hempty] at h
      exact open_of_get? (v := .obj []) h
    · rw [hempty]
      rfl

theorem sanitizers_redact (v : Json) : Redacts sanitizeEvidencePacket v ∧ Redacts stripSensitiveEvidenceFields v ∧
    Redacted sanitizeNotificationMetadata v ∧
    (∀ fields, v = .obj fields → Redacts sanitizeNotificationMetadata v ∧
      sanitizeEvidencePacket v = sanitizeNotificationMetadata v ∧
      stripSensitiveEvidenceFields v = sanitizeNotificationMetadata v) ∧
    ((∀ fields, v ≠ .obj fields) → sanitizeNotificationMetadata v = .obj []) := by
  refine ⟨redacts v, redacts v, redacted_notification v, fun fields hv => ?_, sanitizeNotificationMetadata_other⟩
  subst hv
  exact ⟨redacts_obj fields, rfl, rfl⟩

/-- An array comes out of the notifications as an empty object. -/
theorem sanitizers_differ : ¬∀ v : Json, Redacts sanitizeEvidencePacket v ∧ Redacts sanitizeNotificationMetadata v ∧
    Redacts stripSensitiveEvidenceFields v ∧ ∀ fields, v = .obj fields →
      sanitizeEvidencePacket v = sanitizeNotificationMetadata v ∧
      stripSensitiveEvidenceFields v = sanitizeNotificationMetadata v := by
  intro hall
  have hkept := (hall (.arr [.null])).2.1.minimal [.index 0] (by simp [Open])
  cases hkept

end DocVault
