import ElectrumSV.Basic
/-!
# Restoration filter responses

`post_restoration_filter_request_binary` (`general_api.py`) streams the matches of a restoration
filter request as packets of `FILTER_RESPONSE_SIZE` bytes. It checks the status and the content
type of the response, then takes each chunk that `response.iter_content(chunk_size=
FILTER_RESPONSE_SIZE)` delivers as one packet and raises `FilterResponseIncompleteError` at the
first chunk of another size. The generator is modelled as the packets it yields before it returns
or raises, with what it raises; the chunks are what the transport delivers.

The loop yields chunks while they are full, so whatever the transport delivers, the packets are
full and are the first chunks (`filterPackets_spec`). Where the transport delivers the body in
chunks of the size asked for (`iterContent`), the packets are the body's whole packets, and the
request raises `FilterResponseIncompleteError` exactly when the length of the body is not a
multiple of the packet size (`postRestorationFilterRequestBinary_iterContent`).
-/

namespace ElectrumSV

/-- `FILTER_RESPONSE_SIZE`: the size of one match as a packed packet. -/
def FILTER_RESPONSE_SIZE : Nat := 32 + 32 + 32 + 4 + 4 + 1

/-- What the restoration requests raise. -/
inductive GeneralAPIError
  /-- `response.raise_for_status()` raises `requests.HTTPError`. -/
  | httpError (status : Nat)
  | filterResponseInvalidError (message : String)
  | filterResponseIncompleteError (message : String)
  deriving DecidableEq, Repr

/-- The content type of a `Content-Type` header: the text before its first `;`
(`content_type, *content_type_extra = ....split(";")`). -/
def contentTypeOf (header : String) : String := ⟨header.data.takeWhile (· ≠ ';')⟩

/-- The loop over the chunks: the packets yielded, and what is raised at the first chunk of
another size. -/
def filterPackets : List Bytes → List Bytes × Option GeneralAPIError
  | [] => ([], none)
  | packetBytes :: chunks =>
    if packetBytes.length ≠ FILTER_RESPONSE_SIZE then
      ([], some (.filterResponseIncompleteError "..."))
    else
      let rest := filterPackets chunks
      (packetBytes :: rest.1, rest.2)

/-- `post_restoration_filter_request_binary` on a response with status `status`, the header
`Content-Type: contentType`, and the body in the chunks `chunks`. -/
def postRestorationFilterRequestBinary (status : Nat) (contentType : String)
    (chunks : List Bytes) : List Bytes × Option GeneralAPIError :=
  if 400 ≤ status ∧ status < 600 then ([], some (.httpError status))
  else
    let contentType := contentTypeOf contentType
    if contentType ≠ "application/octet-stream" then
      ([], some (.filterResponseInvalidError
        ("Invalid response content type, got " ++ contentType ++ ", expected octet-stream")))
    else filterPackets chunks

/-- At most `fuel` chunks of `chunkSize` bytes from the body, the last one shorter where the body
runs out. -/
def chunksOf (chunkSize : Nat) : Nat → Bytes → List Bytes
  | 0, _ => []
  | _ + 1, [] => []
  | fuel + 1, b :: body =>
    (b :: body).take chunkSize :: chunksOf chunkSize fuel ((b :: body).drop chunkSize)

/-- `response.iter_content(chunk_size)` where the transport delivers the body in chunks of the
size asked for, the last one shorter where the body runs out. No body has more chunks than
bytes. -/
def iterContent (chunkSize : Nat) (body : Bytes) : List Bytes :=
  chunksOf chunkSize body.length body

section Packets

@[simp] theorem filterPackets_nil : filterPackets [] = ([], none) := rfl

theorem filterPackets_cons_of_length {packetBytes : Bytes}
    (h : packetBytes.length = FILTER_RESPONSE_SIZE) (chunks : List Bytes) :
    filterPackets (packetBytes :: chunks) =
      (packetBytes :: (filterPackets chunks).1, (filterPackets chunks).2) := by
  simp [filterPackets, h]

theorem filterPackets_cons_of_ne {packetBytes : Bytes}
    (h : packetBytes.length ≠ FILTER_RESPONSE_SIZE) (chunks : List Bytes) :
    filterPackets (packetBytes :: chunks) = ([], some (.filterResponseIncompleteError "...")) := by
  simp [filterPackets, h]

/-- The packets are full, they are the first chunks, and they are all the chunks when nothing is
raised. -/
theorem filterPackets_spec : ∀ chunks : List Bytes,
    (∀ p ∈ (filterPackets chunks).1, p.length = FILTER_RESPONSE_SIZE) ∧
      (filterPackets chunks).1 <+: chunks ∧
      ((filterPackets chunks).2 = none → (filterPackets chunks).1 = chunks)
  | [] => by simp
  | c :: chunks => by
    by_cases h : c.length = FILTER_RESPONSE_SIZE
    · obtain ⟨hlen, hpre, hnone⟩ := filterPackets_spec chunks
      rw [filterPackets_cons_of_length h]
      refine ⟨?_, (List.prefix_cons_inj c).2 hpre, fun he => congrArg (c :: ·) (hnone he)⟩
      simpa [h] using hlen
    · rw [filterPackets_cons_of_ne h]
      simp

end Packets

section IterContent

/-- With chunks of `n` bytes, the loop yields the body's whole packets, and raises where a shorter
last chunk is left. -/
theorem filterPackets_chunksOf : ∀ (fuel : Nat) (body : Bytes), body.length ≤ fuel →
    (filterPackets (chunksOf FILTER_RESPONSE_SIZE fuel body)).1.flatten =
        body.take (FILTER_RESPONSE_SIZE * (body.length / FILTER_RESPONSE_SIZE)) ∧
      (filterPackets (chunksOf FILTER_RESPONSE_SIZE fuel body)).2 =
        if body.length % FILTER_RESPONSE_SIZE = 0 then none
        else some (.filterResponseIncompleteError "...")
  | 0, body, h => by
    rw [List.length_eq_zero.1 (Nat.le_zero.1 h)]
    simp [chunksOf]
  | _ + 1, [], _ => by simp [chunksOf]
  | fuel + 1, b :: body, h => by
    have hn : 0 < FILTER_RESPONSE_SIZE := by decide
    rw [chunksOf]
    by_cases hlt : (b :: body).length < FILTER_RESPONSE_SIZE
    · have hne : ((b :: body).take FILTER_RESPONSE_SIZE).length ≠ FILTER_RESPONSE_SIZE := by
        rw [List.length_take]; omega
      rw [filterPackets_cons_of_ne hne, Nat.div_eq_of_lt hlt, Nat.mod_eq_of_lt hlt]
      simp
    · have hle : FILTER_RESPONSE_SIZE ≤ (b :: body).length := by omega
      have hfull : ((b :: body).take FILTER_RESPONSE_SIZE).length = FILTER_RESPONSE_SIZE := by
        rw [List.length_take]; omega
      obtain ⟨ih₁, ih₂⟩ := filterPackets_chunksOf fuel ((b :: body).drop FILTER_RESPONSE_SIZE)
        (by rw [List.length_drop]; simp only [List.length_cons] at h hle ⊢; omega)
      rw [List.length_drop] at ih₁ ih₂
      rw [filterPackets_cons_of_length hfull, List.flatten_cons, ih₁, ← List.take_add,
        Nat.mod_eq_sub_mod hle, Nat.div_eq_sub_div hn hle, Nat.mul_add, Nat.mul_one,
        Nat.add_comm]
      exact ⟨rfl, ih₂⟩

/-- A response with a status that is not an error and an octet stream, its body delivered in
chunks of `FILTER_RESPONSE_SIZE` bytes: the packets are the first chunks, each of
`FILTER_RESPONSE_SIZE` bytes, together the body's whole packets, and the request raises
`FilterResponseIncompleteError` exactly when bytes are left over. -/
theorem postRestorationFilterRequestBinary_iterContent {status : Nat}
    (hs : ¬(400 ≤ status ∧ status < 600)) {contentType : String}
    (hct : contentTypeOf contentType = "application/octet-stream") (body : Bytes) :
    (postRestorationFilterRequestBinary status contentType
        (iterContent FILTER_RESPONSE_SIZE body)).1 <+: iterContent FILTER_RESPONSE_SIZE body ∧
      (∀ p ∈ (postRestorationFilterRequestBinary status contentType
        (iterContent FILTER_RESPONSE_SIZE body)).1, p.length = FILTER_RESPONSE_SIZE) ∧
      (postRestorationFilterRequestBinary status contentType
        (iterContent FILTER_RESPONSE_SIZE body)).1.flatten =
        body.take (FILTER_RESPONSE_SIZE * (body.length / FILTER_RESPONSE_SIZE)) ∧
      (postRestorationFilterRequestBinary status contentType
        (iterContent FILTER_RESPONSE_SIZE body)).2 =
        if body.length % FILTER_RESPONSE_SIZE = 0 then none
        else some (.filterResponseIncompleteError "...") := by
  simp only [postRestorationFilterRequestBinary, if_neg hs, hct, ne_eq, not_true_eq_false,
    if_false]
  obtain ⟨hlen, hpre, -⟩ := filterPackets_spec (iterContent FILTER_RESPONSE_SIZE body)
  exact ⟨hpre, hlen, filterPackets_chunksOf _ body le_rfl⟩

theorem octetStream_postRestorationFilterRequestBinary_iterContent :
    ¬(400 ≤ 200 ∧ 200 < 600) ∧
      contentTypeOf "application/octet-stream; charset=binary" = "application/octet-stream" ∧
      (postRestorationFilterRequestBinary 200 "application/octet-stream; charset=binary"
          (iterContent FILTER_RESPONSE_SIZE (List.replicate 106 7))).1 <+:
        iterContent FILTER_RESPONSE_SIZE (List.replicate 106 7) ∧
      (∀ p ∈ (postRestorationFilterRequestBinary 200 "application/octet-stream; charset=binary"
          (iterContent FILTER_RESPONSE_SIZE (List.replicate 106 7))).1,
        p.length = FILTER_RESPONSE_SIZE) ∧
      (postRestorationFilterRequestBinary 200 "application/octet-stream; charset=binary"
          (iterContent FILTER_RESPONSE_SIZE (List.replicate 106 7))).1.flatten =
        (List.replicate 106 7).take
          (FILTER_RESPONSE_SIZE * ((List.replicate 106 7).length / FILTER_RESPONSE_SIZE)) ∧
      (postRestorationFilterRequestBinary 200 "application/octet-stream; charset=binary"
          (iterContent FILTER_RESPONSE_SIZE (List.replicate 106 7))).2 =
        if (List.replicate 106 7).length % FILTER_RESPONSE_SIZE = 0 then none
        else some (.filterResponseIncompleteError "...") :=
  have hs : ¬(400 ≤ 200 ∧ 200 < 600) := by decide
  have hct : contentTypeOf "application/octet-stream; charset=binary" =
      "application/octet-stream" := by decide
  ⟨hs, hct, postRestorationFilterRequestBinary_iterContent hs hct _⟩

/-- One packet and a byte: the packet is yielded, and then the request raises. -/
example : (postRestorationFilterRequestBinary 200 "application/octet-stream"
    (iterContent FILTER_RESPONSE_SIZE (List.replicate 106 7))).1.length = 1 := by decide

end IterContent

end ElectrumSV
