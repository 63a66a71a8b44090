import Mathlib.Data.List.Basic
import OperationGraph.Proofs.Service.Exchange

/-! # The limit for bodies

Under a limit a body is read up to one byte more than the limit, and is refused if that many bytes came.
So a body is refused exactly if it is longer than the limit, and any other is answered as if there was no
limit. The exception is the greatest limit: no number of sixty-four bits is one more, nothing is read, and
every body is answered as an empty one (`ServiceWith.limitIsExact_iff`). -/

namespace OperationGraph

/-! ### The first bytes of a text -/

namespace Text

theorem length_codeBytes_pos (n : Nat) : 0 < (codeBytes n).length := by
  unfold codeBytes
  repeat' split
  all_goals simp

theorem length_charBytes_pos (c : Char) : 0 < (charBytes c).length := by
  unfold charBytes
  split
  · simp
  · exact length_codeBytes_pos c.toNat

/-- A byte of a code point that takes several bytes is no character of its own. -/
theorem continues_of_mem_codeBytes {n b : Nat} (hn : n < 0x110000) (h : 1 < (codeBytes n).length)
    (hb : b ∈ codeBytes n) : 0x80 ≤ b ∧ b < 0x100 := by
  unfold codeBytes at h hb
  split at hb
  · simp_all
  · repeat' split at hb
    all_goals
      simp only [List.mem_cons, List.not_mem_nil, or_false] at hb
      omega

theorem continues_of_mem_charBytes {c : Char} (h : 1 < (charBytes c).length) {b : Nat}
    (hb : b ∈ charBytes c) : 0x80 ≤ b ∧ b < 0x100 := by
  have hc : c.toNat < 0x110000 := by
    rcases c.valid with hlow | ⟨-, hhigh⟩
    · exact Nat.lt_trans hlow (by decide)
    · exact hhigh
  unfold charBytes at h hb
  split at hb
  · simp_all
  · next heq =>
    rw [heq] at h
    exact continues_of_mem_codeBytes hc h hb

theorem charBytes_stray {b : Nat} (h : 0x80 ≤ b ∧ b < 0x100) : charBytes (stray b) = [b] := by
  have hcode : (stray b).toNat = strayBase + b := by
    have hvalid : (strayBase + b).isValidChar := by
      refine .inr ⟨?_, ?_⟩ <;> simp only [strayBase] <;> omega
    have hofNat : Char.ofNat (strayBase + b) = Char.ofNatAux (strayBase + b) hvalid := dif_pos hvalid
    rw [stray, hofNat]
    rfl
  have hstray : strayByte? (stray b) = some b := by
    rw [strayByte?, hcode, if_pos (by omega)]
    simp
  rw [charBytes, hstray]

theorem byteLength_map_stray {bs : List Nat} (h : ∀ b ∈ bs, 0x80 ≤ b ∧ b < 0x100) :
    byteLength (bs.map stray) = bs.length := by
  have hbytes : bytes (bs.map stray) = bs := by
    rw [bytes, List.flatMap_map, List.flatMap_congr fun b hb => charBytes_stray (h b hb)]
    exact List.flatMap_singleton' bs
  rw [byteLength, hbytes]

@[simp] theorem byteLength_nil : byteLength [] = 0 := rfl

theorem byteLength_cons (c : Char) (cs : List Char) :
    byteLength (c :: cs) = (charBytes c).length + byteLength cs := by
  simp [byteLength, bytes]

/-- As many bytes are read as there is room for. -/
theorem byteLength_firstBytes (n : Nat) (cs : List Char) :
    byteLength (firstBytes n cs) = min n (byteLength cs) := by
  induction cs generalizing n with
  | nil => simp [firstBytes]
  | cons c cs ih =>
    rw [firstBytes, byteLength_cons]
    split
    · rw [byteLength_cons, ih]
      omega
    · next hcut =>
      have hstray : ∀ b ∈ (charBytes c).take n, 0x80 ≤ b ∧ b < 0x100 := by
        intro b hb
        have hpos : 0 < n := by
          rcases Nat.eq_zero_or_pos n with rfl | hpos
          · simp at hb
          · exact hpos
        exact continues_of_mem_charBytes (by omega) (List.mem_of_mem_take hb)
      rw [byteLength_map_stray hstray, List.length_take]
      omega

theorem firstBytes_of_le {n : Nat} {cs : List Char} (h : byteLength cs ≤ n) : firstBytes n cs = cs := by
  induction cs generalizing n with
  | nil => rfl
  | cons c cs ih =>
    rw [byteLength_cons] at h
    rw [firstBytes, if_pos (by omega), ih (by omega)]

theorem firstBytes_zero (cs : List Char) : firstBytes 0 cs = [] := by
  cases cs with
  | nil => rfl
  | cons c cs =>
    have hpos := length_charBytes_pos c
    rw [firstBytes, if_neg (by omega)]
    simp

end Text

/-! ### Bodies under a limit -/

namespace Submission

/-- Below the greatest limit there is room for one byte more. -/
theorem room_eq {limit : Int64} (hlimit : limit ≠ Int64.maxValue) (hpos : 0 < limit) :
    ((limit + 1).toNatClampNeg : Int) = limit.toInt + 1 := by
  have hmax : limit.toInt ≠ Int64.maxValue.toInt := fun h => hlimit (Int64.toInt_inj.1 h)
  have hgreatest : Int64.maxValue.toInt = 2 ^ 63 - 1 := rfl
  have hlt := limit.toInt_lt
  have hzero : (0 : Int64).toInt = 0 := rfl
  have hone : (1 : Int64).toInt = 1 := rfl
  rw [Int64.lt_iff_toInt_lt, hzero] at hpos
  have hsum : (limit + 1).toInt = limit.toInt + 1 := by
    rw [Int64.toInt_add, hone]
    apply Int.bmod_eq_of_le <;> omega
  rw [← Int64.toNat_toInt, hsum]
  omega

theorem readBody_eq {limit : Int64} (hlimit : limit ≠ Int64.maxValue) (body : String) :
    readBody limit body =
      if 0 < limit ∧ limit.toInt < Text.byteLength body.toList then .error .bodyTooLarge
      else .ok body := by
  unfold readBody
  dsimp only
  by_cases hpos : 0 < limit
  · have hroom := room_eq hlimit hpos
    rw [if_neg (by simpa using hpos), Text.byteLength_firstBytes]
    by_cases hlong : limit.toInt < Text.byteLength body.toList
    · rw [if_pos (by omega), if_pos ⟨hpos, hlong⟩]
    · rw [if_neg (by omega), if_neg fun h => hlong h.2, Text.firstBytes_of_le (by omega),
        String.ofList_toList]
  · rw [if_pos (by simpa using hpos), if_neg fun h => hpos h.1]

/-- One more than the greatest limit is no positive number, so nothing is read. -/
theorem readBody_maxValue (body : String) : readBody Int64.maxValue body = .ok "" := by
  have hroom : (Int64.maxValue + 1).toNatClampNeg = 0 := by decide
  rw [readBody, if_neg (by decide), hroom, Text.firstBytes_zero]
  rfl

theorem ofBody_ne_bodyTooLarge (body : String) : ofBody body ≠ .error .bodyTooLarge := by
  unfold ofBody
  dsimp only
  repeat' split
  all_goals simp

end Submission

/-- A request posts a body of the exchange format. -/
structure Http.Request.PostsBody (r : Http.Request) : Prop where
  method : r.method = "POST"
  contentType : Submission.acceptsContentType (r.headers.get "Content-Type") = true

theorem Http.Request.PostsBody.ofRequest {r : Http.Request} (h : r.PostsBody) (limit : Int64) :
    Submission.ofRequest limit r = (Submission.readBody limit r.body).bind Submission.ofBody := by
  rw [Submission.ofRequest, if_neg (by simp [h.method]), if_pos h.contentType]
  cases Submission.readBody limit r.body <;> rfl

/-- Under the greatest limit nothing can be made of any body. -/
theorem Http.Request.PostsBody.ofRequest_maxValue {r : Http.Request} (h : r.PostsBody) :
    Submission.ofRequest Int64.maxValue r = .error .invalidBody := by
  rw [h.ofRequest, Submission.readBody_maxValue]
  rfl

theorem RequestFault.status_eq_iff (e : RequestFault) : e.status = 413 ↔ e = .bodyTooLarge := by
  cases e <;> simp [status]

/-! ### Services under a limit -/

namespace ServiceWith
variable {μ : Type}

def withLimit (s : ServiceWith μ) (limit : Int64) : ServiceWith μ :=
  { s with options := { s.options with maxBodyBytes := limit } }

variable [Memory μ UInt64 CachedResult] (digest : List Nat → UInt64) (s : ServiceWith μ)
  (c : Circumstances) (requestId : String)

/-- The limit plays no part in the answer to a document. -/
theorem answer_withLimit (limit : Int64) (q : AnalysisRequest) :
    (s.withLimit limit).answer digest c requestId q =
      ((s.answer digest c requestId q).1.withLimit limit, (s.answer digest c requestId q).2) := by
  cases hc : c.expired with
  | true => rw [answer_of_expired _ _ _ hc, answer_of_expired _ _ _ hc]
  | false =>
    cases hm : s.remembered? (s.keyOf digest q) q.canonical with
    | some a =>
      rw [answer_of_remembered digest (s.withLimit limit) requestId hc hm,
        answer_of_remembered digest s requestId hc hm]
      rfl
    | none =>
      cases ha : q.analyze s.source.schema with
      | none =>
        rw [answer_of_endless digest (s.withLimit limit) requestId hc hm ha,
          answer_of_endless digest s requestId hc hm ha]
        rfl
      | some a =>
        rw [answer_of_analyze digest (s.withLimit limit) requestId hc hm ha,
          answer_of_analyze digest s requestId hc hm ha]
        rfl

theorem answerAll_withLimit (limit : Int64) (qs : List AnalysisRequest) :
    (s.withLimit limit).answerAll digest c requestId qs =
      ((s.answerAll digest c requestId qs).1.withLimit limit,
        (s.answerAll digest c requestId qs).2) := by
  induction qs generalizing s with
  | nil => rfl
  | cons q qs ih =>
    simp only [answerAll, answer_withLimit]
    obtain ⟨s', _ | reply, told⟩ := s.answer digest c requestId q
    · rfl
    · simp only [ih]

/-- A limit matters only for what is taken from a request. -/
theorem process_withLimit {limit limit' : Int64} {r : Http.Request}
    (h : Submission.ofRequest limit r = Submission.ofRequest limit' r) :
    (s.withLimit limit).process digest c requestId r =
      (((s.withLimit limit').process digest c requestId r).1.withLimit limit,
        ((s.withLimit limit').process digest c requestId r).2) := by
  have hoptions (l : Int64) : (s.withLimit l).options = { s.options with maxBodyBytes := l } := rfl
  unfold process
  simp only [hoptions, h]
  by_cases hmethod : r.method = "OPTIONS"
  · simp only [if_pos hmethod]
    rfl
  simp only [if_neg hmethod]
  by_cases hrefused : (decide (r.method ≠ "POST") && decide (r.method ≠ "GET")) = true
  · simp only [if_pos hrefused]
    rfl
  simp only [if_neg hrefused]
  cases Submission.ofRequest limit' r with
  | error e => rfl
  | ok sub =>
    cases sub with
    | single q => simp only [answer_withLimit]; rfl
    | batch qs => simp only [answerAll_withLimit]; rfl

/-- The response to a body that is refused has the status of the refusal. -/
theorem status_process_of_error {r : Http.Request} (hpost : r.method = "POST") {e : RequestFault}
    (h : Submission.ofRequest s.options.maxBodyBytes r = .error e) :
    (s.process digest c requestId r).2.1.map (·.status) = some e.status := by
  simp [process, hpost, h, respond]

/-- The response to a body that is accepted, if it gets one, has the status of success. -/
theorem status_process_of_ok {r : Http.Request} (hpost : r.method = "POST") {sub : Submission}
    (h : Submission.ofRequest s.options.maxBodyBytes r = .ok sub) {status : Nat}
    (hstatus : (s.process digest c requestId r).2.1.map (·.status) = some status) :
    status = 200 := by
  have haccepted : s.options.accepted? r = some sub := by
    rw [ServiceOptions.accepted?, if_pos (.inl hpost), h]
    rfl
  obtain ⟨headers, hprocess⟩ := process_of_accepted digest s c requestId haccepted
  rw [hprocess, Option.map_map, Option.map_eq_some_iff] at hstatus
  obtain ⟨replies, -, rfl⟩ := hstatus
  rfl

theorem serve_withLimit {limit limit' : Int64} {r : Http.Request}
    (h : Submission.ofRequest limit r = Submission.ofRequest limit' r) :
    (s.withLimit limit).serve digest c r =
      (((s.withLimit limit').serve digest c r).1.withLimit limit,
        ((s.withLimit limit').serve digest c r).2) := by
  unfold serve
  simp only [process_withLimit digest s c _ h]

theorem status_serve_of_error {limit : Int64} {r : Http.Request} (hpost : r.PostsBody)
    {e : RequestFault} (h : Submission.ofRequest limit r = .error e) :
    ((s.withLimit limit).serve digest c r).2.1.map (·.status) = some e.status :=
  status_process_of_error digest (s.withLimit limit) c _ hpost.method h

theorem status_serve_of_ok {limit : Int64} {r : Http.Request} (hpost : r.PostsBody)
    {sub : Submission} (h : Submission.ofRequest limit r = .ok sub) {status : Nat}
    (hstatus : ((s.withLimit limit).serve digest c r).2.1.map (·.status) = some status) :
    status = 200 :=
  status_process_of_ok digest (s.withLimit limit) c _ hpost.method h hstatus

/-- A request gets its due under a limit: it is refused for its size exactly if there is a limit and its
body is longer, and otherwise the response, what is told about it and what is remembered are those
without a limit. -/
def LimitIsExact (limit : Int64) (r : Http.Request) : Prop :=
  let limited := (s.withLimit limit).serve digest c r
  let unlimited := (s.withLimit 0).serve digest c r
  let tooLong := 0 < limit ∧ limit.toInt < Text.byteLength r.body.toList
  (limited.2.1.map (·.status) = some 413 ↔ tooLong) ∧
    (¬ tooLong → limited.2 = unlimited.2 ∧ limited.1 = unlimited.1.withLimit limit)

theorem limitIsExact_of_ne {limit : Int64} (hlimit : limit ≠ Int64.maxValue) {r : Http.Request}
    (h : r.PostsBody) : s.LimitIsExact digest c limit r := by
  have hread := Submission.readBody_eq hlimit r.body
  have hunlimited : Submission.ofRequest 0 r = Submission.ofBody r.body := by
    rw [h.ofRequest, Submission.readBody_eq (by decide), if_neg (by simp)]
    rfl
  by_cases htoo : 0 < limit ∧ limit.toInt < Text.byteLength r.body.toList
  · have hrefused : Submission.ofRequest limit r = .error .bodyTooLarge := by
      rw [h.ofRequest, hread, if_pos htoo]
      rfl
    exact ⟨⟨fun _ => htoo, fun _ => status_serve_of_error digest s c h hrefused⟩,
      fun hnot => absurd htoo hnot⟩
  · have hsame : Submission.ofRequest limit r = Submission.ofRequest 0 r := by
      rw [hunlimited, h.ofRequest, hread, if_neg htoo]
      rfl
    refine ⟨⟨fun hstatus => ?_, fun h => absurd h htoo⟩, fun _ => ?_⟩
    · -- what is wrong with a body that was read is never its size
      have hread' := hsame.trans hunlimited
      cases hbody : Submission.ofBody r.body with
      | error e =>
        rw [status_serve_of_error digest s c h (hread'.trans hbody), Option.some.injEq] at hstatus
        obtain rfl := e.status_eq_iff.1 hstatus
        exact absurd hbody (Submission.ofBody_ne_bodyTooLarge r.body)
      | ok sub => cases status_serve_of_ok digest s c h (hread'.trans hbody) hstatus
    · rw [serve_withLimit digest s c hsame]
      exact ⟨rfl, rfl⟩

end ServiceWith

namespace Posted

/-- A request with a short body that is accepted without a limit. -/
def request : Http.Request :=
  { method := "POST", target := { path := "/", query := "" }, body := "\x7b\"query\":\"a\"\x7d" }

theorem postsBody : request.PostsBody := ⟨rfl, by decide⟩

theorem isOk_ofRequest : (Submission.ofRequest 0 request).isOk = true := by decide +kernel

end Posted

/-- A limit is exact for all bodies exactly if it is not the greatest one. -/
theorem ServiceWith.limitIsExact_iff {μ : Type} [Memory μ UInt64 CachedResult]
    (digest : List Nat → UInt64) (s : ServiceWith μ) (c : Circumstances) (limit : Int64) :
    (∀ r : Http.Request, r.PostsBody → s.LimitIsExact digest c limit r) ↔
      limit ≠ Int64.maxValue := by
  refine ⟨?_, fun hlimit r h => s.limitIsExact_of_ne digest c hlimit h⟩
  rintro hexact rfl
  obtain ⟨-, hanswer⟩ := hexact Posted.request Posted.postsBody
  have hshort : ¬ (0 < Int64.maxValue ∧
      Int64.maxValue.toInt < Text.byteLength Posted.request.body.toList) := by decide +kernel
  have hstatus := congrArg (fun answer => answer.1.map (·.status)) (hanswer hshort).1
  rw [status_serve_of_error digest s c Posted.postsBody Posted.postsBody.ofRequest_maxValue] at hstatus
  have hok := Posted.isOk_ofRequest
  cases hsub : Submission.ofRequest 0 Posted.request with
  | error e => simp [hsub, Except.isOk, Except.toBool] at hok
  | ok sub => cases status_serve_of_ok digest s c Posted.postsBody hsub hstatus.symm

/-- Under the greatest limit a short body is refused that is answered without a limit. -/
theorem ServiceWith.not_limitIsExact_maxValue :
    let s : Service := Service.create {} { kind := .fixed, schema := {}, generation := 1 }
    let status (limit : Int64) : Option Nat :=
      ((s.withLimit limit).serve (fun _ => 0) { freshId := "1" } Posted.request).2.1.map (·.status)
    Posted.request.PostsBody ∧ Text.byteLength Posted.request.body.toList = 13 ∧
      status 0 = some 200 ∧ status 13 = some 200 ∧ status 12 = some 413 ∧
      status Int64.maxValue = some 400 := by
  refine ⟨Posted.postsBody, ?_⟩
  decide +kernel

end OperationGraph
