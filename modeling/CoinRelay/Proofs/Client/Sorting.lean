import CoinRelay.Proofs.Client.Batch
import CoinRelay.Proofs.Client.Mail
import CoinRelay.Proofs.Inventory.Once

/-!
# Packets that are delivered

A packet finds its key if the vault has a secret under its identifier and no packet before it takes the secret
(`Client.FindsKey`). A mail check delivers those that do and reports the others; every packet is in one of the two
lists, and the secrets under all their identifiers are gone afterwards (`checkMail_sorts`).

- `Vault.getElem?_burn`, `Vault.has_burn`: what a vault has after one burn;
- `findsKey_cons_succ`: to find a key among the packets is to find it among the later ones once the first is burned;
- `burnAll_fst`: so the packets that are burned one after the other are sorted by what the vault had before all of them.
-/

namespace CoinRelay

/-! ## One burn -/

namespace Vault

/-- A burn takes out the entry under its identifier. -/
theorem getElem?_burn (keyId : KeyId) (v : Vault) (k : KeyId) :
    (v.burn keyId).2.entries[k]? = if keyId = k then none else v.entries[k]? := by
  split
  · next hk =>
    subst hk
    exact Std.ExtTreeMap.getElem?_eq_none (not_mem_burn keyId v)
  · next hk =>
    apply (agreeOff_burn keyId v).entries
    simpa using Ne.symm hk

theorem has_burn (keyId : KeyId) (v : Vault) (k : KeyId) :
    (v.burn keyId).2.has k = true ↔ keyId ≠ k ∧ v.has k = true := by
  unfold has
  rw [Std.ExtTreeMap.contains_eq_isSome_getElem?, Std.ExtTreeMap.contains_eq_isSome_getElem?, getElem?_burn]
  by_cases hk : keyId = k <;> simp [hk]

theorem sealer_burn (keyId : KeyId) (v : Vault) : (v.burn keyId).2.sealer = v.sealer := by
  unfold burn
  cases v.entries[keyId]? <;> rfl

end Vault

namespace Client

variable {σ : Type} {v : Vault} {packet : Packet} {packets : List Packet} {i : Inventory}

/-! ## Places in a mailbox -/

/-- The packets in the places of a mailbox with a property, in order. -/
def inPlaces (p : Packet × Nat → Prop) [DecidablePred p] (packets : List Packet) : List Packet :=
  (packets.zipIdx.filter p).map (·.1)

section Places

variable (p : Packet × Nat → Prop) [DecidablePred p] (packets : List Packet)

theorem inPlaces_sublist : (inPlaces p packets).Sublist packets := by
  have h := (List.filter_sublist (p := fun place => decide (p place)) (l := packets.zipIdx)).map (·.1)
  rwa [List.zipIdx_map_fst] at h

/-- A property and its contrary share out the packets. -/
theorem inPlaces_perm : (inPlaces p packets ++ inPlaces (¬p ·) packets).Perm packets := by
  have h := (List.filter_append_perm (fun place => decide (p place)) packets.zipIdx).map (·.1)
  rw [List.zipIdx_map_fst, List.map_append] at h
  simpa [inPlaces] using h

/-- The packet in the first place, and those in the places counted on from there. -/
theorem inPlaces_cons (packet : Packet) :
    inPlaces p (packet :: packets) =
      (if p (packet, 0) then [packet] else []) ++ inPlaces (fun place => p (place.1, place.2 + 1)) packets := by
  unfold inPlaces
  have hlater : (fun place => decide (p place)) ∘ Prod.map id (· + 1) = fun place => decide (p (place.1, place.2 + 1)) :=
    rfl
  rw [List.zipIdx_cons', List.filter_cons, List.filter_map, hlater]
  by_cases hfirst : p (packet, 0) <;> simp [hfirst]

end Places

theorem inPlaces_congr {p q : Packet × Nat → Prop} [DecidablePred p] [DecidablePred q] (h : ∀ place, p place ↔ q place)
    (packets : List Packet) : inPlaces p packets = inPlaces q packets := by
  unfold inPlaces
  simp only [h]

/-! ## Keys that are found -/

/-- The vault has a secret for the packet in a place of a mailbox, and no packet before it takes the secret. -/
def FindsKey (v : Vault) (packets : List Packet) (place : Packet × Nat) : Prop :=
  v.has place.1.keyId = true ∧ ∀ earlier ∈ packets.take place.2, earlier.keyId ≠ place.1.keyId

instance (v : Vault) (packets : List Packet) : DecidablePred (FindsKey v packets) := fun place =>
  inferInstanceAs (Decidable (v.has place.1.keyId = true ∧
    ∀ earlier ∈ packets.take place.2, earlier.keyId ≠ place.1.keyId))

theorem findsKey_cons_zero : FindsKey v (packet :: packets) (packet, 0) ↔ v.has packet.keyId = true := by
  simp [FindsKey]

/-- A later packet finds its key in what is left when the first one is burned. -/
theorem findsKey_cons_succ {place : Packet × Nat} :
    FindsKey v (packet :: packets) (place.1, place.2 + 1) ↔ FindsKey (v.burn packet.keyId).2 packets place := by
  unfold FindsKey
  rw [Vault.has_burn, List.take_succ_cons, List.forall_mem_cons]
  tauto

theorem inPlaces_findsKey_cons (v : Vault) (packet : Packet) (packets : List Packet) :
    inPlaces (FindsKey v (packet :: packets)) (packet :: packets) =
      (if v.has packet.keyId then [packet] else []) ++ inPlaces (FindsKey (v.burn packet.keyId).2 packets) packets := by
  rw [inPlaces_cons, inPlaces_congr (fun _ => findsKey_cons_succ)]
  simp only [findsKey_cons_zero]

theorem inPlaces_not_findsKey_cons (v : Vault) (packet : Packet) (packets : List Packet) :
    inPlaces (¬FindsKey v (packet :: packets) ·) (packet :: packets) =
      (if v.has packet.keyId then [] else [packet]) ++
        inPlaces (¬FindsKey (v.burn packet.keyId).2 packets ·) packets := by
  rw [inPlaces_cons, inPlaces_congr (fun _ => not_congr findsKey_cons_succ)]
  simp only [findsKey_cons_zero, ite_not]

/-- **Packets that are burned** one after the other are sorted by what the vault had before. -/
theorem burnAll_fst (h : i.vault.Whole) :
    (burnAll packets i).1 =
      { delivered := inPlaces (FindsKey i.vault packets) packets
        missingKey := inPlaces (¬FindsKey i.vault packets ·) packets } := by
  induction packets generalizing i with
  | nil => rfl
  | cons packet packets ih =>
    have hrest := ih (i := (i.onVault (·.burn packet.keyId)).2) (h.make (.burn packet.keyId))
    rw [burnAll_cons, inPlaces_findsKey_cons, inPlaces_not_findsKey_cons, h.has_eq]
    simp only [hrest]
    split <;> rfl

theorem entries_burnAll (packets : List Packet) (i : Inventory) (keyId : KeyId) :
    (burnAll packets i).2.vault.entries[keyId]? =
      if keyId ∈ packets.map (·.keyId) then none else i.vault.entries[keyId]? := by
  rw [burnAll_snd]
  induction packets generalizing i with
  | nil => simp
  | cons packet packets ih =>
    have hburn := Vault.getElem?_burn packet.keyId i.vault keyId
    rw [List.foldl_cons, ih]
    simp only [Inventory.onVault, hburn, List.map_cons, List.mem_cons]
    by_cases hfirst : packet.keyId = keyId
    · simp [hfirst]
    · simp [hfirst, Ne.symm hfirst]

/-- Each packet that is delivered is counted as a burn. -/
theorem burned_burnAll (h : i.vault.Whole) :
    (burnAll packets i).2.vault.burned = i.vault.burned + (burnAll packets i).1.delivered.length := by
  induction packets generalizing i with
  | nil => rfl
  | cons packet packets ih =>
    have hrest := ih (i := (i.onVault (·.burn packet.keyId)).2) (h.make (.burn packet.keyId))
    have hburn : (i.onVault (·.burn packet.keyId)).2.vault.burned =
        i.vault.burned + (i.vault.burn packet.keyId).1.isSome.toNat := by
      rw [← h.has_eq]
      exact Vault.burned_burn packet.keyId i.vault
    rw [hburn] at hrest
    rw [burnAll_cons]
    cases hopens : (i.vault.burn packet.keyId).1.isSome with
    | true =>
      rw [hopens] at hrest
      rw [if_pos rfl, hrest, List.length_cons, Bool.toNat_true]
      omega
    | false =>
      rw [hopens] at hrest
      exact hrest

theorem sealer_burnAll (packets : List Packet) (i : Inventory) :
    (burnAll packets i).2.vault.sealer = i.vault.sealer := by
  rw [burnAll_snd]
  induction packets generalizing i with
  | nil => rfl
  | cons packet packets ih => exact (ih _).trans (Vault.sealer_burn packet.keyId i.vault)

/-! ## Mail checks -/

/-- What a mail check reports of packets, and what it leaves of the client that made it. -/
structure Sorts (packets : List Packet) (c d : Client) (report : MailReport) : Prop where
  /-- The packets that find their keys are delivered, in order. -/
  delivered : report.delivered = inPlaces (FindsKey c.inventory.vault packets) packets
  /-- The others miss them. -/
  missingKey : report.missingKey = inPlaces (¬FindsKey c.inventory.vault packets ·) packets
  delivered_sublist : report.delivered.Sublist packets
  missingKey_sublist : report.missingKey.Sublist packets
  /-- Each packet is in one of the lists, as often as it was drained. -/
  perm : (report.delivered ++ report.missingKey).Perm packets
  /-- No secret is left under the identifiers of the packets, and the others are untouched. -/
  entries : ∀ keyId, d.inventory.vault.entries[keyId]? =
    if keyId ∈ packets.map (·.keyId) then none else c.inventory.vault.entries[keyId]?
  /-- Each packet that is delivered is counted as a burn. -/
  burned : d.inventory.vault.burned = c.inventory.vault.burned + report.delivered.length
  /-- Nothing but the entries and the counter changes. -/
  others : d = { c with
    inventory := { c.inventory with
      vault := { c.inventory.vault with
        entries := d.inventory.vault.entries
        burned := d.inventory.vault.burned } } }

theorem sorts_burnAll {c : Client} (h : c.inventory.vault.Whole) (packets : List Packet) :
    Sorts packets c { c with inventory := (burnAll packets c.inventory).2 } (burnAll packets c.inventory).1 := by
  have hreport : (burnAll packets c.inventory).1 = _ := burnAll_fst h
  constructor
  · rw [hreport]
  · rw [hreport]
  · rw [hreport]
    exact inPlaces_sublist _ packets
  · rw [hreport]
    exact inPlaces_sublist _ packets
  · rw [hreport]
    exact inPlaces_perm _ packets
  · exact entries_burnAll packets c.inventory
  · exact burned_burnAll h
  · have hcache := (agreeOff_burnAll packets c.inventory).1
    have hsealer := sealer_burnAll packets c.inventory
    simp only [← hcache, ← hsealer]

/-- **Mail is sorted by the keys that are there.** Whatever packets a mailbox gives to a client whose secrets all open,
each packet is delivered if it is the first that was sent with a key of which the client has the secret, and it is
reported as missing its key otherwise; the secrets under all these keys are gone then, and nothing else is. If the
mailbox cannot be drained, the client stays as it was. -/
theorem checkMail_sorts (link : Link σ) (c : Client) (s : σ) (h : c.inventory.vault.Whole) :
    (∀ cause t, link.drain c.user s = (.error cause, t) → c.checkMail link s = (.error (.link cause), c, t)) ∧
      ∀ packets t, link.drain c.user s = (.ok packets, t) →
        ∃ report d, c.checkMail link s = (.ok report, d, t) ∧ Sorts packets c d report := by
  constructor
  · intro cause t hdrain
    simp only [checkMail, hdrain]
  · intro packets t hdrain
    refine ⟨_, _, ?_, sorts_burnAll h packets⟩
    simp only [checkMail, hdrain]

/-- A packet for Alice under a key. -/
def note (keyId : UInt64) (payload : String) : Packet :=
  { recipient := "alice", keyId := ⟨keyId⟩, tier := .bronze, ciphertext := "", payload, nonce := "" }

/-- Three packets, the first under a key that nobody has and the others under one key. -/
def notes : List Packet := [note 9 "stray", note 7 "first", note 7 "again"]

/-- A broker where the three wait. -/
def postOffice : Broker := notes.foldl (fun b packet => (b.route packet).2) { clock := ⟨0⟩ }

theorem checkMail_sorts_notes :
    keeper.inventory.vault.Whole ∧ ∃ t report d, Link.direct.drain keeper.user postOffice = (.ok notes, t) ∧
      keeper.checkMail .direct postOffice = (.ok report, d, t) ∧ Sorts notes keeper d report ∧
        report.delivered = [note 7 "first"] ∧ report.missingKey = [note 9 "stray", note 7 "again"] := by
  have hempty : novice.inventory.vault.Whole := fun _ hk => absurd hk (Vault.not_mem_of_empty rfl)
  have hwhole : keeper.inventory.vault.Whole := hempty.store ⟨7⟩ [1]
  have hpackets : (postOffice.drain "alice").1 = notes := by decide +kernel
  have hdrain : Link.direct.drain keeper.user postOffice = (.ok notes, (postOffice.drain "alice").2) := by
    rw [← hpackets]
    rfl
  obtain ⟨report, d, hcheck, hsorts⟩ := (checkMail_sorts .direct keeper postOffice hwhole).2 _ _ hdrain
  refine ⟨hwhole, _, report, d, hdrain, hcheck, hsorts, ?_, ?_⟩
  · rw [hsorts.delivered]
    decide +kernel
  · rw [hsorts.missingKey]
    decide +kernel

end Client

end CoinRelay
