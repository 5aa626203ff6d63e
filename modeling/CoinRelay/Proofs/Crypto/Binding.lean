import CoinRelay.Coin
import CoinRelay.Crypto.Binding
import CoinRelay.Proofs.Hex
import CoinRelay.Proofs.KeyId

/-!
# What the binding tag binds

What is hashed for a key and a tier is a label of fixed length, one octet for the tier and the octets of the key, so it
can be taken apart again. A listed key is in lowercase hexadecimal, hence the text of its octets and of no others, and
never stands for itself.

- `Binding.material_eq_iff`, `Binding.tag_eq_iff`: what is hashed tells the key and the tier, and so does the tag unless
  the hash collides (`Collide`);
- `Binding.tag_of_toLower_eq`: digits and their capitals give one tag;
- `Binding.isLower_tag`, `Binding.length_tag`: the form of a tag.
-/

namespace CoinRelay.Crypto.Binding

variable {publicKey other : String} {tier tier' : Tier}

/-! ## What is hashed -/

/-- The octets of a key in hexadecimal, of whatever case, are those that it writes. -/
theorem keyOctets_of_decode? {o : Octets} (h : Hex.decode? publicKey = some o) : keyOctets publicKey = o := by
  rw [keyOctets, h, Option.getD_some]

/-- The octets of a key in lowercase hexadecimal tell the key. -/
theorem encode_keyOctets (h : Hex.isLower publicKey) : Hex.encode (keyOctets publicKey) = publicKey := by
  obtain ⟨o, hread, hwrite⟩ := Hex.isLower_iff_decode?.1 h
  rw [keyOctets_of_decode? hread, hwrite]

/-- What is hashed comes apart into the tier and the octets of the key. -/
theorem material_inj (h : material publicKey tier = material other tier') :
    tier = tier' ∧ keyOctets publicKey = keyOctets other := by
  obtain ⟨hcode, hkey⟩ := List.cons_eq_cons.1 (List.append_cancel_left h)
  exact ⟨KeyId.code_inj hcode, hkey⟩

/-- **What is hashed** tells the key and the tier. -/
theorem material_eq_iff (h : Hex.isLower publicKey) (hother : Hex.isLower other) :
    material publicKey tier = material other tier' ↔ publicKey = other ∧ tier = tier' := by
  constructor
  · intro heq
    obtain ⟨htier, hkey⟩ := material_inj heq
    refine ⟨?_, htier⟩
    rw [← encode_keyOctets h, hkey, encode_keyOctets hother]
  · rintro ⟨rfl, rfl⟩
    rfl

/-! ## Tags -/

/-- Two messages with one hash. -/
def Collide (message other : Octets) : Prop := message ≠ other ∧ sha256 message = sha256 other

/-- **The tag** tells the key and the tier, unless the hash collides on them. -/
theorem tag_eq_iff (h : Hex.isLower publicKey) (hother : Hex.isLower other) :
    tag publicKey tier = tag other tier' ↔
      (publicKey = other ∧ tier = tier') ∨ Collide (material publicKey tier) (material other tier') := by
  rw [← material_eq_iff h hother]
  constructor
  · intro heq
    have hhash : sha256 (material publicKey tier) = sha256 (material other tier') := Hex.encode_inj heq
    by_cases hsame : material publicKey tier = material other tier'
    · exact .inl hsame
    · exact .inr ⟨hsame, hhash⟩
  · rintro (hsame | ⟨-, hhash⟩)
    · exact congrArg (fun message => Hex.encode (sha256 message)) hsame
    · exact congrArg Hex.encode hhash

/-- **Capitals** change nothing about the tag of a key in hexadecimal. -/
theorem tag_of_toLower_eq (h : Hex.isLower publicKey.toLower) (hsame : publicKey.toLower = other.toLower)
    (tier : Tier) : tag publicKey tier = tag other tier := by
  obtain ⟨o, hread, -⟩ := Hex.isLower_iff_decode?.1 h
  have hkey : keyOctets publicKey = o := keyOctets_of_decode? (by rw [← Hex.decode?_toLower, hread])
  have hother : keyOctets other = o := keyOctets_of_decode? (by rw [← Hex.decode?_toLower, ← hsame, hread])
  rw [tag, tag, material, material, hkey, hother]

theorem isLower_tag (publicKey : String) (tier : Tier) : Hex.isLower (tag publicKey tier) := Hex.isLower_encode _

theorem length_tag (publicKey : String) (tier : Tier) : (tag publicKey tier).length = 64 := by
  rw [tag, Hex.length_encode, length_sha256]

theorem tag_ne_empty (publicKey : String) (tier : Tier) : tag publicKey tier ≠ "" := by
  refine Hex.encode_ne_empty fun hnil => ?_
  have hlength := length_sha256 (material publicKey tier)
  rw [hnil] at hlength
  cases hlength

/-- A coin that carries its tag and has a key in lowercase hexadecimal lacks no more than an owner. -/
theorem fault?_of_tag {coin : Coin} (hkey : coin.publicKey ≠ "") (hlower : Hex.isLower coin.publicKey)
    (htag : coin.signature = tag coin.publicKey coin.tier) :
    coin.fault? = if coin.owner = "" then some .emptyOwner else none := by
  simp only [Coin.fault?, String.isEmpty_iff, hkey, hlower, htag, tag_ne_empty, Bool.or_eq_true, Bool.not_true, or_self,
    Bool.false_eq_true, if_false]

/-- **A coin that carries its tag** is valid, if it has an owner and a key in lowercase hexadecimal. -/
theorem check_of_tag {coin : Coin} (howner : coin.owner ≠ "") (hkey : coin.publicKey ≠ "")
    (hlower : Hex.isLower coin.publicKey) (htag : coin.signature = tag coin.publicKey coin.tier) :
    coin.check = .ok () := by
  rw [Coin.check, fault?_of_tag hkey hlower htag, if_neg howner]

/-- **The tag binds the key and the tier**, and nothing else. For listed keys, what is hashed is the same only for the
same key and tier, so the tags of others differ unless the hash collides. The case of the digits does not matter. Every
tag is 64 lowercase digits, and a coin that carries its own is valid. -/
theorem tag_binds_key_and_tier :
    (∀ publicKey other tier tier', Hex.isLower publicKey → Hex.isLower other →
      (material publicKey tier = material other tier' ↔ publicKey = other ∧ tier = tier') ∧
        (tag publicKey tier = tag other tier' ↔
          (publicKey = other ∧ tier = tier') ∨ Collide (material publicKey tier) (material other tier'))) ∧
      (∀ publicKey other tier, Hex.isLower publicKey.toLower → publicKey.toLower = other.toLower →
        tag publicKey tier = tag other tier) ∧
      (∀ publicKey tier, (tag publicKey tier).length = 64 ∧ ∀ c ∈ (tag publicKey tier).toList, Hex.isLowerDigit c) ∧
      ∀ coin : Coin, coin.owner ≠ "" → coin.publicKey ≠ "" → Hex.isLower coin.publicKey →
        coin.signature = tag coin.publicKey coin.tier → coin.check = .ok () := by
  refine ⟨fun publicKey other tier tier' h hother => ⟨?_, ?_⟩, fun publicKey other tier h hsame => ?_,
    fun publicKey tier => ⟨?_, ?_⟩, fun coin howner hkey hlower htag => ?_⟩
  · exact material_eq_iff h hother
  · exact tag_eq_iff h hother
  · exact tag_of_toLower_eq h hsame tier
  · exact length_tag publicKey tier
  · exact List.all_eq_true.1 ((Bool.and_eq_true _ _).mp (isLower_tag publicKey tier)).2
  · exact check_of_tag howner hkey hlower htag

theorem tag_binds_key_and_tier_short :
    (Hex.isLower "00ff" ∧ Hex.isLower "00fe" ∧ material "00ff" .gold ≠ material "00fe" .gold ∧
        (tag "00ff" .gold = tag "00fe" .gold ↔ Collide (material "00ff" .gold) (material "00fe" .gold))) ∧
      ("0aFf".toLower = "0aff" ∧ "0AfF".toLower = "0aff" ∧ tag "0aFf" .silver = tag "0AfF" .silver) ∧
      (tag "no key" .gold).length = 64 ∧
      Coin.check ⟨"alice", ⟨7⟩, .bronze, "00ff", tag "00ff" .bronze⟩ = .ok () := by
  obtain ⟨hbinds, hcase, hform, hvalid⟩ := tag_binds_key_and_tier
  have hkey : Hex.isLower "00ff" := by rfl
  have hother : Hex.isLower "00fe" := by rfl
  obtain ⟨hmaterial, htag⟩ := hbinds "00ff" "00fe" .gold .gold hkey hother
  have hdiffer : ¬("00ff" = "00fe" ∧ Tier.gold = .gold) := by decide
  have hlower : "0aFf".toLower = "0aff" := by
    rw [← String.toList_inj, Hex.toList_toLower]
    rfl
  have hupper : "0AfF".toLower = "0aff" := by
    rw [← String.toList_inj, Hex.toList_toLower]
    rfl
  have howner : "alice" ≠ "" := by decide
  have hsome : "00ff" ≠ "" := by decide
  refine ⟨⟨hkey, hother, mt hmaterial.1 hdiffer, htag.trans (or_iff_right hdiffer)⟩, ⟨hlower, hupper, ?_⟩,
    (hform "no key" .gold).1, ?_⟩
  · have hcapitals : Hex.isLower "0aFf".toLower := by
      rw [hlower]
      rfl
    exact hcase "0aFf" "0AfF" .silver hcapitals (hlower.trans hupper.symm)
  · exact hvalid ⟨"alice", ⟨7⟩, .bronze, "00ff", tag "00ff" .bronze⟩ howner hsome hkey rfl

end CoinRelay.Crypto.Binding
