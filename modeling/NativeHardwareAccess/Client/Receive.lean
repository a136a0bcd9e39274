import NativeHardwareAccess.Client.RoundTrip

/-! Receiving a response (tools/src/nhac.cpp, `receiveResponse`).

    The client receives the four bytes of the size field, and then as many bytes as the field says or
    as the buffer has room for, whichever is less. It returns the size field itself. The peer chooses
    the bytes, the pieces in which `recv` gives them, and when the connection ends. -/

namespace NHA.Nhac
open Scheme Scheme.MD5 Scheme.Tlv NHA.MessageBuilder NHA.Protocol

/-- The peer's side of the connection: pieces of at least one byte, then the end or an error, given by
    the text of `strerror`. -/
inductive Peer where
  | closed
  | fails (error : String)
  | sends (b : UInt8) (bs : List UInt8) (next : Peer)

/-- The most bytes that one call of `recv` gives. -/
def maxRwCount : ℕ := 0x7ffff000

/-- `recv` with a length: the bytes it gives, none at the end of the connection. -/
def Peer.recv : Peer → ℕ → Except String (List UInt8) × Peer
  | .closed, _ => (.ok [], .closed)
  | .fails error, _ => (.error error, .fails error)
  | .sends b bs next, len =>
    (.ok ((b :: bs).take (min len maxRwCount)),
      match (b :: bs).drop (min len maxRwCount) with
      | [] => next
      | c :: cs => .sends c cs next)

/-- All bytes the peer sends. -/
def Peer.stream : Peer → List UInt8
  | .sends b bs next => b :: bs ++ next.stream
  | _ => []

/-- The first piece has the four bytes of the size field. -/
def Peer.opens : Peer → Prop
  | .sends _ bs _ => 3 ≤ bs.length
  | _ => False

/-- The peer, the buffer, and the ranges that `recv` was asked to fill, as offset and length. -/
structure Receiving where
  peer : Peer
  t : Memory
  requests : List (ℕ × ℕ)

/-- Receive into the buffer. -/
def Receiving.recv (r : Receiving) (offset len : ℕ) : Except String (List UInt8) × Receiving :=
  match r.peer.recv len with
  | (.error e, peer) => (.error e, ⟨peer, r.t, r.requests ++ [(offset, len)]⟩)
  | (.ok data, peer) =>
    (.ok data, ⟨peer, r.t.stores offset data, r.requests ++ [(offset, len)]⟩)

/-- The second `recv` and the loop after it. Each turn takes a byte of the stream, so one more than
    its length is fuel enough. -/
def receiveRest : ℕ → ℕ → ℕ → Receiving → Except String Unit × Receiving
  | 0, _, _, r => (.error "", r)
  | fuel + 1, offset, n, r =>
    match r.recv offset n with
    | (.error e, r) => (.error ("receiveResponse: recv: " ++ e), r)
    | (.ok data, r) =>
      if data.length = 0 then (.error "receiveResponse: recv: connection closed", r)
      else if data.length = n then (.ok (), r)
      else receiveRest fuel (offset + data.length) (sizeSub n data.length) r

/-- `receiveResponse` into a buffer of `n` bytes: the size it returns. -/
def receiveResponse (r : Receiving) (n : ℕ) : Except String ℕ × Receiving :=
  match r.recv 0 4 with
  | (.error e, r) => (.error ("receiveResponse: recv: " ++ e), r)
  | (.ok data, r) =>
    if data.length ≠ 4 then
      (.error "receiveResponse: recv: failed to receive size of message", r)
    else
      let completeSize := (fromLE32 r.t).toNat
      match receiveRest (r.peer.stream.length + 1) 4 (sizeSub (min n completeSize) 4) r with
      | (.error e, r) => (.error e, r)
      | (.ok _, r) => (.ok completeSize, r)

/-! ### One call -/

/-- What `recv` gives is the start of the stream, and at least a byte unless the stream is at its end or
    it was asked for none. -/
theorem Peer.recv_cases (peer : Peer) (len : ℕ) :
    (∃ e peer', peer.recv len = (.error e, peer') ∧ peer.stream = []) ∨
    (∃ data peer', peer.recv len = (.ok data, peer') ∧ data.length ≤ len ∧
      data ++ peer'.stream = peer.stream ∧ (data = [] → peer.stream = [] ∨ len = 0)) := by
  cases peer with
  | closed => exact Or.inr ⟨[], .closed, rfl, Nat.zero_le _, rfl, fun _ => Or.inl rfl⟩
  | fails error => exact Or.inl ⟨error, _, rfl, rfl⟩
  | sends b bs next =>
    refine Or.inr ⟨_, _, rfl, ?_, ?_, ?_⟩
    · rw [List.length_take]
      omega
    · have hsplit := List.take_append_drop (min len maxRwCount) (b :: bs)
      split
      · rename_i hnil
        rw [hnil, List.append_nil] at hsplit
        rw [hsplit]
        rfl
      · rename_i c cs hcons
        rw [hcons] at hsplit
        rw [Peer.stream, Peer.stream, ← List.append_assoc, hsplit]
    · intro hnil
      simp only [List.take_eq_nil_iff, maxRwCount, reduceCtorEq, or_false] at hnil
      exact Or.inr (by omega)

/-! ### The loop -/

/-- The requests of a loop that fills `n` bytes from an offset: the first one asks for all of them, and
    every one ends where they end. -/
def Fills (before after : Receiving) (offset n : ℕ) : Prop :=
  ∃ more, after.requests = before.requests ++ (offset, n) :: more ∧
    ∀ request ∈ more, request.1 + request.2 = offset + n

/-- A first request that gave a part, and the requests for the rest. -/
theorem Fills.cons {before after : Receiving} {peer : Peer} {t : Memory} {offset n k : ℕ} (hk : k ≤ n)
    (h : Fills ⟨peer, t, before.requests ++ [(offset, n)]⟩ after (offset + k) (n - k)) :
    Fills before after offset n := by
  obtain ⟨more, hmore, hend⟩ := h
  refine ⟨_ :: more, by rw [hmore, List.append_assoc]; rfl, ?_⟩
  rw [List.forall_mem_cons]
  refine ⟨by dsimp only; omega, fun request hreq => ?_⟩
  rw [hend request hreq]
  omega

/-- The loop fills the `n` bytes with the start of the stream if there are so many and they are not
    none; otherwise it throws. -/
theorem receiveRest_spec (fuel : ℕ) (offset n : ℕ) (r : Receiving) (hn : n < 2 ^ 64)
    (hfuel : r.peer.stream.length < fuel) :
    (0 < n ∧ n ≤ r.peer.stream.length ∧ ∃ r', receiveRest fuel offset n r = (.ok (), r') ∧
      r'.t = r.t.stores offset (r.peer.stream.take n) ∧ Fills r r' offset n) ∨
    ((n = 0 ∨ r.peer.stream.length < n) ∧ ∃ e r', receiveRest fuel offset n r = (.error e, r') ∧
      Fills r r' offset n) := by
  induction fuel generalizing offset n r with
  | zero => exact absurd hfuel (Nat.not_lt_zero _)
  | succ fuel ih =>
    rw [receiveRest, Receiving.recv]
    rcases Peer.recv_cases r.peer n with ⟨e, peer', hrecv, hnil⟩ |
      ⟨data, peer', hrecv, hle, hstream, hsome⟩
    · rw [hrecv]
      refine Or.inr ⟨by rw [hnil, List.length_nil]; omega, _, _, rfl, [], rfl, by simp⟩
    · rw [hrecv]
      have hlen := congrArg List.length hstream
      rw [List.length_append] at hlen
      dsimp only
      split_ifs with hzero hall
      · -- nothing came: the end of the stream, or nothing was asked for
        refine Or.inr ⟨?_, _, _, rfl, [], rfl, by simp⟩
        rcases hsome (List.length_eq_zero_iff.mp hzero) with hnil | hn0
        · rw [hnil, List.length_nil]
          omega
        · exact Or.inl hn0
      · refine Or.inl ⟨by omega, by omega, _, rfl, ?_, [], rfl, by simp⟩
        rw [← hstream, ← hall, List.take_left]
      · -- a part came: the rest of the loop fills the rest
        rw [sizeSub_eq hle hn]
        have hrest := ih (offset + data.length) (n - data.length)
          ⟨peer', r.t.stores offset data, r.requests ++ [(offset, n)]⟩ (by omega)
          (by dsimp only; omega)
        rcases hrest with ⟨hpos, hle', r', hr', ht', hfill⟩ | ⟨hshort, e, r', hr', hfill⟩
        · refine Or.inl ⟨by omega, by dsimp only at hle'; omega, r', hr', ?_, hfill.cons hle⟩
          rw [ht', Memory.stores_append, ← hstream, List.take_append,
            List.take_of_length_le hle]
        · refine Or.inr ⟨?_, e, r', hr', hfill.cons hle⟩
          dsimp only at hshort
          omega

/-! ### The whole response -/

/-- The first call when the peer sends the size field in one piece. -/
theorem recv_opens {r : Receiving} (h : r.peer.opens) : ∃ peer',
    r.recv 0 4 = (.ok (r.peer.stream.take 4),
      ⟨peer', r.t.stores 0 (r.peer.stream.take 4), r.requests ++ [(0, 4)]⟩) ∧
    peer'.stream = r.peer.stream.drop 4 ∧ 4 ≤ r.peer.stream.length := by
  obtain ⟨peer, t, requests⟩ := r
  cases peer with
  | closed => exact absurd h (by simp [Peer.opens])
  | fails error => exact absurd h (by simp [Peer.opens])
  | sends b bs next =>
    have hbs : 3 ≤ bs.length := h
    have hfour : 4 ≤ (b :: bs).length := by rw [List.length_cons]; omega
    have htake : (Peer.sends b bs next).stream.take 4 = (b :: bs).take 4 :=
      List.take_append_of_le_length hfour
    have hdrop : (Peer.sends b bs next).stream.drop 4 = (b :: bs).drop 4 ++ next.stream :=
      List.drop_append_of_le_length hfour
    refine ⟨_, by rw [htake]; rfl, ?_, ?_⟩
    · rw [hdrop]
      have hmin : min 4 maxRwCount = 4 := rfl
      rw [hmin]
      split
      · rename_i hnil
        rw [hnil, List.nil_append]
      · rename_i c cs hcons
        rw [hcons]
        rfl
    · rw [Peer.stream, List.length_append]
      omega

/-- Otherwise fewer than four bytes come, and the client throws after this call. -/
theorem receiveResponse_not_opens {r : Receiving} {n : ℕ} (h : ¬ r.peer.opens) :
    ∃ e r', receiveResponse r n = (.error e, r') ∧ r'.requests = r.requests ++ [(0, 4)] := by
  obtain ⟨peer, t, requests⟩ := r
  rw [receiveResponse]
  cases peer with
  | closed => exact ⟨_, _, rfl, rfl⟩
  | fails error => exact ⟨_, _, rfl, rfl⟩
  | sends b bs next =>
    have hbs : ¬ 3 ≤ bs.length := h
    have hshort : ((b :: bs).take (min 4 maxRwCount)).length ≠ 4 := by
      rw [List.length_take, List.length_cons]
      omega
    rw [Receiving.recv, Peer.recv]
    dsimp only
    rw [if_pos hshort]
    exact ⟨_, _, rfl, rfl⟩

/-- What the client promises: every `recv` is asked to fill a range of the buffer, and a returned size
    is at most that of the buffer, is the size field of the stream, and counts bytes of the stream that
    are now in the buffer, on which alone the decoding of so many bytes depends. -/
def Safe (md5 : List UInt8 → Digest) (peer : Peer) (t : Memory) (n : ℕ) : Prop :=
  (∀ request ∈ (receiveResponse ⟨peer, t, []⟩ n).2.requests, request.1 + request.2 ≤ n) ∧
  ∀ k, (receiveResponse ⟨peer, t, []⟩ n).1 = .ok k → k ≤ n ∧ k = ofLE (peer.stream.take 4) ∧
    slice (receiveResponse ⟨peer, t, []⟩ n).2.t 0 k = peer.stream.take k ∧
    ∀ (m : Message) (t' : Memory), slice t' 0 k = peer.stream.take k →
      m.deserialize md5 t' k = m.deserialize md5 (receiveResponse ⟨peer, t, []⟩ n).2.t k

/-- The peers against which the promise is kept: the size field does not come in one piece, or it lies
    between 4 and the size of the buffer, or it is larger and the connection ends before the buffer is
    full. -/
def Harmless (peer : Peer) (n : ℕ) : Prop :=
  ¬ peer.opens ∨
  (4 ≤ ofLE (peer.stream.take 4) ∧ ofLE (peer.stream.take 4) ≤ n) ∨
  (n < ofLE (peer.stream.take 4) ∧ (n = 4 ∨ peer.stream.length < n))

/-- A response that comes as announced. -/
theorem receiveResponse_opens {r : Receiving} (n : ℕ) (h : r.peer.opens) :
    let f := ofLE (r.peer.stream.take 4)
    let k := sizeSub (min n f) 4
    ∃ before, before.requests = r.requests ++ [(0, 4)] ∧
      ((0 < k ∧ k ≤ (r.peer.stream.drop 4).length ∧ ∃ r', receiveResponse r n = (.ok f, r') ∧
        r'.t = r.t.stores 0 (r.peer.stream.take (4 + k)) ∧ Fills before r' 4 k) ∨
      ((k = 0 ∨ (r.peer.stream.drop 4).length < k) ∧
        ∃ e r', receiveResponse r n = (.error e, r') ∧ Fills before r' 4 k)) := by
  obtain ⟨peer', hrecv, hstream, hlen⟩ := recv_opens h
  have hfour : (r.peer.stream.take 4).length = 4 := by rw [List.length_take]; omega
  have hfield : (fromLE32 (r.t.stores 0 (r.peer.stream.take 4))).toNat =
      ofLE (r.peer.stream.take 4) := by
    have hback := Memory.slice_stores (r.peer.stream.take 4) r.t 0
    rw [hfour] at hback
    rw [fromLE32, toNat_fromLE32, hback]
  have hk : sizeSub (min n (ofLE (r.peer.stream.take 4))) 4 < 2 ^ 64 := by
    rw [sizeSub]
    omega
  intro f k
  refine ⟨⟨peer', r.t.stores 0 (r.peer.stream.take 4), r.requests ++ [(0, 4)]⟩, rfl, ?_⟩
  rw [receiveResponse, hrecv]
  dsimp only
  rw [if_neg (by rw [hfour]; simp), hfield]
  have hspec := receiveRest_spec (peer'.stream.length + 1) 4 k
    ⟨peer', r.t.stores 0 (r.peer.stream.take 4), r.requests ++ [(0, 4)]⟩ hk (Nat.lt_succ_self _)
  rw [hstream] at hspec ⊢
  rcases hspec with ⟨hpos, hle, r', hr', ht', hfills⟩ | ⟨hshort, e, r', hr', hfills⟩
  · refine Or.inl ⟨hpos, hle, r', ?_, ?_, hfills⟩
    · rw [hr']
    · rw [ht']
      dsimp only
      have happend := Memory.stores_append (r.peer.stream.take 4) ((r.peer.stream.drop 4).take k)
        r.t 0
      rw [hfour, Nat.zero_add] at happend
      rw [happend, List.take_add]
  · exact Or.inr ⟨hshort, e, r', by rw [hr'], hfills⟩

section
variable {md5 : List UInt8 → Digest} {peer : Peer} {t : Memory} {n : ℕ}

/-- Requests that fill the bytes from 4 to an end within the buffer. -/
theorem Fills.le {before after : Receiving} {k : ℕ} (h : Fills before after 4 k)
    (hbefore : before.requests = [] ++ [(0, 4)]) (hk : 4 + k ≤ n) :
    ∀ request ∈ after.requests, request.1 + request.2 ≤ n := by
  obtain ⟨more, hmore, hend⟩ := h
  rw [hmore, hbefore]
  intro request hreq
  simp only [List.nil_append, List.singleton_append, List.mem_cons] at hreq
  rcases hreq with rfl | rfl | hreq
  · dsimp only
    omega
  · exact hk
  · rw [hend request hreq]
    exact hk

/-- Requests in range and an error: safe. -/
theorem safe_of_error {e : String} {r' : Receiving}
    (h : receiveResponse ⟨peer, t, []⟩ n = (.error e, r'))
    (hrange : ∀ request ∈ r'.requests, request.1 + request.2 ≤ n) : Safe md5 peer t n := by
  rw [Safe, h]
  exact ⟨hrange, by simp⟩

/-- A size field below 4 makes the length of the next request wrap. -/
theorem not_safe_of_lt_four (hn : 4 ≤ n) (hn' : n < 2 ^ 64) (hopens : peer.opens)
    (hf : ofLE (peer.stream.take 4) < 4) : ¬ Safe md5 peer t n := by
  rintro ⟨hrange, -⟩
  have hk : n < 4 + sizeSub (min n (ofLE (peer.stream.take 4))) 4 := by
    rw [sizeSub]
    omega
  obtain ⟨before, -, hcases⟩ := receiveResponse_opens (r := ⟨peer, t, []⟩) n hopens
  have hbad : ∀ r', Fills before r' 4 (sizeSub (min n (ofLE (peer.stream.take 4))) 4) →
      ¬ ∀ request ∈ r'.requests, request.1 + request.2 ≤ n := by
    rintro r' ⟨more, hmore, -⟩ hall
    have hfirst := hall _ (by rw [hmore]; exact List.mem_append_right _ List.mem_cons_self)
    exact absurd hk (Nat.not_lt.mpr hfirst)
  rcases hcases with ⟨-, -, r', hr', -, hfills⟩ | ⟨-, e, r', hr', hfills⟩
  · rw [hr'] at hrange
    exact hbad r' hfills hrange
  · rw [hr'] at hrange
    exact hbad r' hfills hrange

/-- A size field that fits the buffer. -/
theorem safe_of_fits (hn : n < 2 ^ 64) (hopens : peer.opens)
    (hlow : 4 ≤ ofLE (peer.stream.take 4)) (hhigh : ofLE (peer.stream.take 4) ≤ n) :
    Safe md5 peer t n := by
  have hk : sizeSub (min n (ofLE (peer.stream.take 4))) 4 = ofLE (peer.stream.take 4) - 4 := by
    rw [Nat.min_eq_right hhigh, sizeSub_eq hlow (by omega)]
  obtain ⟨before, hbefore, hcases⟩ := receiveResponse_opens (r := ⟨peer, t, []⟩) n hopens
  dsimp only at hcases hbefore
  rw [hk] at hcases
  have hrange : ∀ r', Fills before r' 4 (ofLE (peer.stream.take 4) - 4) →
      ∀ request ∈ r'.requests, request.1 + request.2 ≤ n :=
    fun r' hfills => hfills.le hbefore (by omega)
  rcases hcases with ⟨hpos, hle, r', hr', ht', hfills⟩ | ⟨-, e, r', hr', hfills⟩
  · have htotal : 4 + (ofLE (peer.stream.take 4) - 4) = ofLE (peer.stream.take 4) := by omega
    rw [htotal] at ht'
    have hbytes : slice r'.t 0 (ofLE (peer.stream.take 4)) =
        peer.stream.take (ofLE (peer.stream.take 4)) := by
      have hback := Memory.slice_stores (peer.stream.take (ofLE (peer.stream.take 4))) t 0
      rw [List.length_drop] at hle
      rw [List.length_take, Nat.min_eq_left (by omega)] at hback
      rw [ht', hback]
    rw [Safe, hr']
    refine ⟨hrange r' hfills, ?_⟩
    rintro k hk'
    obtain rfl := Except.ok.inj hk'
    refine ⟨hhigh, rfl, hbytes, fun m t' ht'' => deserialize_congr md5 m fun i hi _ => ?_⟩
    exact byte_eq_of_slice_eq (ht''.trans hbytes.symm) hi
  · exact safe_of_error hr' (hrange r' hfills)

/-- A size field larger than the buffer is returned if the buffer can be filled. -/
theorem safe_iff_of_large (hn : 4 ≤ n) (hn' : n < 2 ^ 64) (hopens : peer.opens)
    (hlarge : n < ofLE (peer.stream.take 4)) :
    Safe md5 peer t n ↔ n = 4 ∨ peer.stream.length < n := by
  have hk : sizeSub (min n (ofLE (peer.stream.take 4))) 4 = n - 4 := by
    rw [Nat.min_eq_left (by omega), sizeSub_eq hn hn']
  obtain ⟨before, hbefore, hcases⟩ := receiveResponse_opens (r := ⟨peer, t, []⟩) n hopens
  dsimp only at hcases hbefore
  rw [hk, List.length_drop] at hcases
  rcases hcases with ⟨hpos, hle, r', hr', -, -⟩ | ⟨hshort, e, r', hr', hfills⟩
  · refine iff_of_false ?_ (by omega)
    rintro ⟨-, hok⟩
    rw [hr'] at hok
    have hle' := (hok _ rfl).1
    omega
  · refine iff_of_true (safe_of_error hr' (hfills.le hbefore (by omega))) (by omega)

/-- The promise is kept exactly against harmless peers. -/
theorem safe_iff_harmless (hn : 4 ≤ n) (hn' : n < 2 ^ 64) :
    Safe md5 peer t n ↔ Harmless peer n := by
  rw [Harmless]
  by_cases hopens : peer.opens
  · rw [or_iff_right (not_not.mpr hopens)]
    rcases Nat.lt_or_ge (ofLE (peer.stream.take 4)) 4 with hf | hf
    · exact iff_of_false (not_safe_of_lt_four hn hn' hopens hf) (by omega)
    rcases Nat.lt_or_ge n (ofLE (peer.stream.take 4)) with hlarge | hfits
    · rw [safe_iff_of_large hn hn' hopens hlarge]
      omega
    · exact iff_of_true (safe_of_fits hn' hopens hf hfits) (Or.inl ⟨hf, hfits⟩)
  · obtain ⟨e, r', hr', hreq⟩ := receiveResponse_not_opens (r := ⟨peer, t, []⟩) (n := n) hopens
    refine iff_of_true (safe_of_error hr' ?_) (Or.inl hopens)
    rw [hreq]
    simpa using hn

end

/-- CORRECT: for every stream, every way to cut it into pieces and every buffer of at least four bytes,
    receiving is safe exactly when the peer is harmless: the size field does not come in one piece, or
    lies between 4 and the size of the buffer, or is larger and the stream ends before the buffer is
    full. -/
theorem receive_safe_iff (md5 : List UInt8 → Digest) (peer : Peer) (t : Memory) (n : ℕ)
    (hn : 4 ≤ n) (hn' : n < 2 ^ 64) : Safe md5 peer t n ↔
      (¬ peer.opens ∨ (4 ≤ ofLE (peer.stream.take 4) ∧ ofLE (peer.stream.take 4) ≤ n) ∨
        (n < ofLE (peer.stream.take 4) ∧ (n = 4 ∨ peer.stream.length < n))) :=
  safe_iff_harmless hn hn'

/-- The server's answer to a query without records, in three pieces. -/
def samplePeer : Peer :=
  .sends 0x26 [0, 0, 0, 0x00, 0x04] (.sends 0x4e [0x48, 0x41, 0x31] (.sends 1 (List.replicate 30 0)
    .closed))

theorem samplePeer_safe : Safe MD5.md5 samplePeer (fun _ => 0) 65536 :=
  (receive_safe_iff MD5.md5 samplePeer (fun _ => 0) 65536 (by decide) (by decide)).mpr
    (Or.inr (Or.inl (by decide)))

/-- A size field of 0: the next `recv` is asked for 2^64 - 4 bytes. -/
theorem zeroField_unsafe : ¬ Safe MD5.md5 (.sends 0 [0, 0, 0] .closed) (fun _ => 0) 65536 := by
  rw [safe_iff_harmless (by decide) (by decide)]
  rintro (h | h | h)
  · exact h (le_refl 3)
  · exact absurd h (by decide)
  · exact absurd h (by decide)

end NHA.Nhac
