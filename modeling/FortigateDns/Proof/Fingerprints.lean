import FortigateDns.Spec.Fingerprints

/-!
# Fingerprint streams identify their inputs

Equal streams come from equal inputs, because each part is told from what follows it. With SHA-256
free of collisions on the streams at hand, equal fingerprints then mean equal inputs
(`semanticFingerprint_inj`).
-/

namespace FortigateDns

open Go List

theorem framing_fingerprintPart : Framing (fun _ => True) writeFingerprintPart := by
  intro a b rest rest' _ _ h
  exact framing_of_length framing_decimal [0] a b rest rest' trivial trivial h

theorem writeFingerprintPart_ne_nil (value : List Byte) : writeFingerprintPart value ≠ [] := by
  unfold writeFingerprintPart
  exact append_ne_nil_of_right_ne_nil _ (cons_ne_nil _ _)

section Events

variable (order order' : List (List Byte) → List (List Byte)) (horder : ∀ l, (order l).Perm l)
  (horder' : ∀ l, (order' l).Perm l)

/-- The fields in the order in which they are written. -/
def sortedEntries (fields : SemanticFields) : List (List Byte × List Byte) :=
  ((order fields.keys).insertionSort (· ≤ ·)).map fun key => (key, (fields.lookup key).getD [])

theorem semanticStream_eq (kind : List Byte) (fields : SemanticFields) :
    semanticStream order kind fields = writeFingerprintPart kind ++
      (sortedEntries order fields).flatMap fun p => writeFingerprintPart p.1 ++ writeFingerprintPart p.2 := by
  unfold semanticStream sortedEntries
  dsimp only
  rw [flatMap_map]

include horder in
/-- **The entries that are written are those of the map.** -/
theorem mem_sortedEntries (fields : SemanticFields) (key value : List Byte) :
    (key, value) ∈ sortedEntries order fields ↔ fields.lookup key = some value := by
  have hkeys : key ∈ (order fields.keys).insertionSort (· ≤ ·) ↔ (fields.lookup key).isSome := by
    rw [((perm_insertionSort _ _).trans (horder fields.keys)).mem_iff, ← AList.mem_keys, AList.lookup_isSome]
  unfold sortedEntries
  rw [mem_map]
  constructor
  · rintro ⟨k, hk, hpair⟩
    obtain ⟨rfl, rfl⟩ := Prod.mk.inj hpair
    obtain ⟨v, hv⟩ := Option.isSome_iff_exists.1 (hkeys.1 hk)
    rw [hv]
    rfl
  · intro h
    exact ⟨key, hkeys.2 (by rw [h]; rfl), by rw [h]; rfl⟩

include horder horder' in
/-- The stream of an event determines the kind and every field. -/
theorem semanticStream_inj {kind kind' : List Byte} {fields fields' : SemanticFields}
    (h : semanticStream order kind fields = semanticStream order' kind' fields') :
    kind = kind' ∧ ∀ key, fields.lookup key = fields'.lookup key := by
  rw [semanticStream_eq, semanticStream_eq] at h
  obtain ⟨hkind, hentries⟩ := framing_fingerprintPart kind kind' _ _ trivial trivial h
  have hsame : sortedEntries order fields = sortedEntries order' fields' :=
    (framing_fingerprintPart.pair framing_fingerprintPart).flatMap_inj
      (fun p => append_ne_nil_of_left_ne_nil (writeFingerprintPart_ne_nil p.1) _)
      (fun _ _ => ⟨trivial, trivial⟩) (fun _ _ => ⟨trivial, trivial⟩) hentries
  refine ⟨hkind, fun key => Option.ext fun value => ?_⟩
  have hleft := mem_sortedEntries order horder fields key value
  have hright := mem_sortedEntries order' horder' fields' key value
  rw [hsame] at hleft
  exact hleft.symm.trans hright

end Events

/-- The lengths of Go's slices and strings. -/
def GoLength (value : List Byte) : Prop := value.length < 2 ^ 63

theorem framing_hashPart : Framing GoLength hashPart := by
  intro a b rest rest' ha hb h
  have hheader : Framing (fun x => x < 2 ^ 63) fun x => bigEndian 8 (x % 2 ^ 64) := by
    intro x y r r' hx hy heq
    have hx64 : x < 2 ^ 64 := lt_trans hx (by decide)
    have hy64 : y < 2 ^ 64 := lt_trans hy (by decide)
    dsimp only at heq
    rw [Nat.mod_eq_of_lt hx64, Nat.mod_eq_of_lt hy64] at heq
    exact framing_bytesBE 8 x y r r' hx64 hy64 heq
  unfold hashPart at h
  refine framing_of_length hheader [] a b rest rest' ha hb ?_
  simp only [append_nil]
  exact h

theorem hashPart_ne_nil (value : List Byte) : hashPart value ≠ [] := by
  refine ne_nil_of_length_pos ?_
  unfold hashPart
  rw [length_append, length_bigEndian]
  exact Nat.lt_add_right _ (by decide)

/-- The stream of credentials determines them. -/
theorem credentialStream_inj {token token' ca ca' : List Byte} {versions versions' : List (List Byte)}
    (htoken : GoLength token ∧ GoLength token') (hca : GoLength ca ∧ GoLength ca')
    (hversions : (∀ v ∈ versions, GoLength v) ∧ ∀ v ∈ versions', GoLength v)
    (h : credentialStream token ca versions = credentialStream token' ca' versions') :
    token = token' ∧ ca = ca' ∧ versions = versions' := by
  unfold credentialStream at h
  rw [append_assoc, append_assoc] at h
  obtain ⟨htokens, hrest⟩ := framing_hashPart _ _ _ _ htoken.1 htoken.2 h
  obtain ⟨hcas, hparts⟩ := framing_hashPart _ _ _ _ hca.1 hca.2 hrest
  exact ⟨htokens, hcas, framing_hashPart.flatMap_inj hashPart_ne_nil hversions.1 hversions.2 hparts⟩

/-- **Fingerprint streams are injective**, in whatever order the maps are ranged over. -/
theorem fingerprint_streams_injective :
    (∀ order order' : List (List Byte) → List (List Byte), (∀ l, (order l).Perm l) → (∀ l, (order' l).Perm l) →
      ∀ (kind kind' : List Byte) (fields fields' : SemanticFields),
      semanticStream order kind fields = semanticStream order' kind' fields' →
        kind = kind' ∧ ∀ key, fields.lookup key = fields'.lookup key) ∧
    (∀ (token token' ca ca' : List Byte) (versions versions' : List (List Byte)),
      GoLength token ∧ GoLength token' → GoLength ca ∧ GoLength ca' →
      (∀ v ∈ versions, GoLength v) ∧ (∀ v ∈ versions', GoLength v) →
      credentialStream token ca versions = credentialStream token' ca' versions' →
        token = token' ∧ ca = ca' ∧ versions = versions') :=
  ⟨fun order order' horder horder' _ _ _ _ => semanticStream_inj order order' horder horder',
    fun _ _ _ _ _ _ => credentialStream_inj⟩

/-- Two maps filled in two orders write one stream; two tokens that differ in a NUL do not. -/
theorem fingerprint_streams_injective_instance :
    (let fields : SemanticFields := ((∅ : SemanticFields).insert [49] [58, 0]).insert [58] [];
      let fields' : SemanticFields := ((∅ : SemanticFields).insert [58] []).insert [49] [58, 0];
      semanticStream id (asciiBytes "Service") fields = semanticStream List.reverse
        (asciiBytes "Service") fields' ∧
        ∀ key, fields.lookup key = fields'.lookup key) ∧
    credentialStream [0] [] [[49], []] ≠ credentialStream [] [0] [[49], []] := by
  refine ⟨?_, fun h => ?_⟩
  · intro fields fields'
    have heq : semanticStream id (asciiBytes "Service") fields =
        semanticStream List.reverse (asciiBytes "Service") fields' := by decide +kernel
    exact ⟨heq, (fingerprint_streams_injective.1 id List.reverse
      (fun _ => .refl _) reverse_perm _ _ fields fields'
      heq).2⟩
  · have hlengths : ∀ l : List Byte, l.length < 2 → GoLength l := fun l hl => hl.trans (by decide)
    have hversions : ∀ v ∈ [[49], ([] : List Byte)], GoLength v := fun v hv => hlengths v (by
      revert v
      decide)
    have hinj := fingerprint_streams_injective.2 [0] [] [] [0] [[49], []] [[49], []]
      ⟨hlengths _ (by decide), hlengths _ (by decide)⟩ ⟨hlengths _ (by decide), hlengths _ (by decide)⟩
      ⟨hversions, hversions⟩ h
    exact absurd hinj.1 (by decide)

/-- With no collision between the two streams, equal fingerprints come from equal events. -/
theorem semanticFingerprint_inj {order order' : List (List Byte) → List (List Byte)}
    (horder : ∀ l, (order l).Perm l) (horder' : ∀ l, (order' l).Perm l) {kind kind' : List Byte}
    {fields fields' : SemanticFields} {digest : List Char}
    (hfree : streamHex (semanticStream order kind fields) = streamHex (semanticStream order' kind' fields') →
      semanticStream order kind fields = semanticStream order' kind' fields')
    (h : newSemanticFingerprint order kind fields = .ok digest)
    (h' : newSemanticFingerprint order' kind' fields' = .ok digest) :
    kind = kind' ∧ ∀ key, fields.lookup key = fields'.lookup key := by
  unfold newSemanticFingerprint at h h'
  split at h
  · cases h
  split at h'
  · cases h'
  have hdigests := (Except.ok.inj h).trans (Except.ok.inj h').symm
  exact semanticStream_inj order order' horder horder' (hfree hdigests)

end FortigateDns
