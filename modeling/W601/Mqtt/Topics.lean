import W601.Lib.Runs
import W601.Mqtt.Packet

/-!
# The subscriptions of an MQTT context

The context has room for one topic, in front of the message that is published, and `mqtt_subscribe` allows ten. It counts
the topic before the broker has answered, and nothing takes a topic out again.

* `Exact`: the table is as long as its array and holds the topics subscribed.
* `exact_iff`: the runs of the four calls in which it always does.
-/

namespace W601.Mqtt.Table

open Runs
open Net (badArg)

/-- `MqttTopic`. -/
structure MqttTopic where
  topicFilter : Option (List UInt8)
  qos : ℕ
  returnCode : UInt8

/-- The fields of `MqttPublish` that `mqtt_publish` sets. -/
structure MqttPublish where
  qos : ℕ
  packetId : UInt16
  topicName : Option (List UInt8)
  buffer : List UInt8

/-- The part of `MQTTCtx_t` that the calls work on, `mPacketIdLast`, and what has become of the calls so far. -/
structure MQTTCtx where
  topicsCount : ℕ
  /-- The array `topics`, of length one. -/
  topics : MqttTopic
  publish : MqttPublish
  qos : ℕ
  packetIdLast : ℕ
  /-- The topics that the broker has accepted and not let go of. -/
  subscribed : List (List UInt8)
  /-- A topic behind the array has been read or written. -/
  overrun : Bool
  /-- A topic that is not subscribed has been cancelled with a packet, or with an answer other than -1. -/
  misanswered : Bool

/-- The context that `mqtt_ctx_create` makes. -/
def MQTTCtx.init : MQTTCtx := ⟨0, ⟨none, 0, 0⟩, ⟨0, 0, none, []⟩, 0, 0, [], false, false⟩

/-- What comes of a packet: the answer of the client library once the packet is encoded, and the first code of the
acknowledgement, if there is any. -/
structure Exchange where
  rc : ℤ
  code : Option UInt8

/-- `MQTT_SUBSCRIBE_ACK_CODE_FAILURE`. -/
def ackFailure : UInt8 := 0x80

/-- `mqtt_get_packetid`. -/
def getPacketId (ctx : MQTTCtx) : MQTTCtx × UInt16 :=
  let next := (if 65535 ≤ ctx.packetIdLast then 0 else ctx.packetIdLast) + 1
  ({ ctx with packetIdLast := next }, UInt16.ofNat next)

/-- A call of the client library: its answer and the packets sent. -/
def send (encoded : Except ℤ (List UInt8)) (x : Exchange) : ℤ × List (List UInt8) :=
  match encoded with
  | .error rc => (rc, [])
  | .ok packet => (x.rc, [packet])

/-- The context behind a call, the answer and the packets sent. -/
abbrev Answer := MQTTCtx × ℤ × List (List UInt8)

/-- An access behind the array: what follows is not defined. -/
def outside (ctx : MQTTCtx) : Answer := ({ ctx with overrun := true }, 0, [])

/-- `mqtt_subscribe`. -/
def mqttSubscribe (topicName : List UInt8) (qos : ℕ) (x : Exchange) (ctx : MQTTCtx) : Answer :=
  if ctx.topicsCount < 10 then
    let ctx := { ctx with topicsCount := ctx.topicsCount + 1 }
    -- the entry written is the last one counted
    if ctx.topicsCount - 1 ≠ 0 then outside ctx
    else
      let ctx := { ctx with topics := { ctx.topics with topicFilter := some topicName, qos := qos } }
      let (ctx, packetId) := getPacketId ctx
      let (rc, sent) := send (encodeSubscribe packetId [(ctx.topics.topicFilter, ctx.topics.qos)]) x
      let ctx := if rc = 0 then { ctx with topics := { ctx.topics with returnCode := x.code.getD ctx.topics.returnCode } }
        else ctx
      (ctx, rc, sent)
  else (ctx, -1, [])

/-- The end of `mqtt_unsubscribe` and of `mqtt_unsubscribe_all`. -/
def sendUnsubscribe (packetId : UInt16) (topics : List TopicArg) (x : Exchange) (ctx : MQTTCtx) : Answer :=
  let (rc, sent) := send (encodeUnsubscribe packetId topics) x
  (ctx, if rc ≠ 0 then -1 else 0, sent)

/-- `mqtt_unsubscribe`: the search goes on behind the array when there are more topics counted. -/
def mqttUnsubscribe (topicName : List UInt8) (x : Exchange) (ctx : MQTTCtx) : Answer :=
  let (ctx, packetId) := getPacketId ctx
  match ctx.topicsCount with
  | 0 => sendUnsubscribe packetId [(none, 0)] x ctx
  | n + 1 =>
    if ctx.topics.topicFilter = some topicName then
      sendUnsubscribe packetId [(ctx.topics.topicFilter, ctx.topics.qos)] x ctx
    else if n = 0 then (ctx, -1, [])
    else outside ctx

/-- `mqtt_unsubscribe_all`. -/
def mqttUnsubscribeAll (x : Exchange) (ctx : MQTTCtx) : Answer :=
  let (ctx, packetId) := getPacketId ctx
  match ctx.topicsCount with
  | 0 => sendUnsubscribe packetId [] x ctx
  | 1 => sendUnsubscribe packetId [(ctx.topics.topicFilter, ctx.topics.qos)] x ctx
  | _ + 2 => outside ctx

/-- `mqtt_publish`; the answer and the packet are those of the client library. -/
def mqttPublish (data topicName : List UInt8) (rc : ℤ) (ctx : MQTTCtx) : MQTTCtx × ℤ :=
  let (ctx, packetId) := getPacketId ctx
  ({ ctx with publish := ⟨ctx.qos, packetId, some topicName, data⟩ }, if rc ≠ 0 then -1 else rc)

/-! ## Runs -/

/-- A call, and what comes of it. -/
inductive TableCall where
  | subscribe (topicName : List UInt8) (qos : ℕ) (x : Exchange)
  | unsubscribe (topicName : List UInt8) (x : Exchange)
  | unsubscribeAll (x : Exchange)
  | publish (data topicName : List UInt8) (rc : ℤ)

/-- The broker accepts a topic when it acknowledges the packet without the code of a failure. -/
def accepted (rc : ℤ) (x : Exchange) : Bool := rc = 0 && x.code ≠ some ackFailure

/-- A call on the context, unless an access behind the array has gone before. -/
def MQTTCtx.step (ctx : MQTTCtx) (call : TableCall) : Option MQTTCtx :=
  if ctx.overrun then none
  else match call with
    | .subscribe topicName qos x =>
      let (t, rc, _) := mqttSubscribe topicName qos x ctx
      some (if accepted rc x then { t with subscribed := t.subscribed ++ [topicName] } else t)
    | .unsubscribe topicName x =>
      let (t, rc, sent) := mqttUnsubscribe topicName x ctx
      let t := { t with misanswered := t.misanswered || (!ctx.subscribed.contains topicName && (rc ≠ -1 || sent ≠ [])) }
      some (if rc = 0 then { t with subscribed := t.subscribed.filter (· ≠ topicName) } else t)
    | .unsubscribeAll x =>
      let (t, rc, _) := mqttUnsubscribeAll x ctx
      some (if rc = 0 then { t with subscribed := [] } else t)
    | .publish data topicName rc => some (mqttPublish data topicName rc ctx).1

/-- The first `topics_count` entries. -/
def listed (ctx : MQTTCtx) : List (Option (List UInt8)) :=
  (List.range ctx.topicsCount).map fun i => if i = 0 then ctx.topics.topicFilter else none

/-- What should hold of the table. -/
structure Exact (ctx : MQTTCtx) : Prop where
  inside : ctx.overrun = false
  topics : listed ctx = ctx.subscribed.map some
  answered : ctx.misanswered = false

/-- A topic is subscribed into the empty table and accepted; a cancellation of topics that are listed fails. -/
def Fits (ctx : MQTTCtx) : TableCall → Prop
  | .subscribe topicName _ x => ctx.topicsCount = 0 ∧ subscribeSize topicName ≤ txBufLen ∧ accepted x.rc x = true
  | .unsubscribe topicName x => topicName ∈ ctx.subscribed → x.rc ≠ 0 ∨ txBufLen < unsubscribeSize topicName
  | .unsubscribeAll x => ∀ topicName ∈ ctx.subscribed, x.rc ≠ 0 ∨ txBufLen < unsubscribeSize topicName
  | .publish _ _ _ => True

/-! ## The table -/

section Steps

variable {ctx : MQTTCtx}

/-- **The table is empty or holds one topic.** -/
theorem Exact.cases (h : Exact ctx) : (ctx.topicsCount = 0 ∧ ctx.subscribed = []) ∨
    ∃ name, ctx.topicsCount = 1 ∧ ctx.topics.topicFilter = some name ∧ ctx.subscribed = [name] := by
  have hlist := h.topics
  rw [listed] at hlist
  match hcount : ctx.topicsCount with
  | 0 =>
    rw [hcount] at hlist
    exact Or.inl ⟨rfl, List.map_eq_nil_iff.1 hlist.symm⟩
  | 1 =>
    rw [hcount] at hlist
    have hone : [ctx.topics.topicFilter] = ctx.subscribed.map some := hlist
    obtain ⟨name, hname, hfilter⟩ := List.map_eq_singleton_iff.1 hone.symm
    exact Or.inr ⟨name, rfl, hfilter.symm, hname⟩
  | n + 2 =>
    -- the second entry would be behind the array
    have hnone : none ∈ ctx.subscribed.map some := by
      rw [← hlist, hcount]
      exact List.mem_map.2 ⟨1, by simp, rfl⟩
    obtain ⟨name, -, hname⟩ := List.mem_map.1 hnone
    exact absurd hname (by simp)

theorem listed_one (h : ctx.topicsCount = 1) : listed ctx = [ctx.topics.topicFilter] := by rw [listed, h]; rfl

theorem send_subscribe (packetId : UInt16) (name : List UInt8) (qos : ℕ) (x : Exchange) :
    accepted (send (encodeSubscribe packetId [(some name, qos)]) x).1 x = true ↔
      subscribeSize name ≤ txBufLen ∧ accepted x.rc x = true := by
  rcases encodeSubscribe_cases packetId name qos with ⟨hfit, packet, hp⟩ | ⟨hfit, he⟩
  · rw [hp]
    simp [send, hfit]
  · rw [he]
    have hno : ¬ subscribeSize name ≤ txBufLen := by omega
    simp [send, accepted, outOfBuffer, hno]

theorem send_unsubscribe (packetId : UInt16) (name : List UInt8) (qos : ℕ) (x : Exchange) :
    (send (encodeUnsubscribe packetId [(some name, qos)]) x).1 = 0 ↔ unsubscribeSize name ≤ txBufLen ∧ x.rc = 0 := by
  rcases encodeUnsubscribe_cases packetId name qos with ⟨hfit, packet, hp⟩ | ⟨hfit, he⟩
  · rw [hp]
    simp [send, hfit]
  · rw [he]
    have hno : ¬ unsubscribeSize name ≤ txBufLen := by omega
    simp [send, outOfBuffer, hno]

/-- **A subscription** is counted and written, whether or not the broker accepts it. -/
theorem mqttSubscribe_empty (h : ctx.topicsCount = 0) (name : List UInt8) (qos : ℕ) (x : Exchange) :
    ∃ t rc sent, mqttSubscribe name qos x ctx = (t, rc, sent) ∧ t.topicsCount = 1 ∧ t.topics.topicFilter = some name ∧
      t.subscribed = ctx.subscribed ∧ t.overrun = ctx.overrun ∧ t.misanswered = ctx.misanswered ∧
      (accepted rc x = true ↔ subscribeSize name ≤ txBufLen ∧ accepted x.rc x = true) := by
  simp only [mqttSubscribe, h, getPacketId]
  refine ⟨_, _, _, rfl, ?_, ?_, ?_, ?_, ?_, send_subscribe _ name qos x⟩
  all_goals split_ifs <;> rfl

/-- With a topic in the table the next one is written behind the array. -/
theorem mqttSubscribe_second (h : ctx.topicsCount = 1) (name : List UInt8) (qos : ℕ) (x : Exchange) :
    (mqttSubscribe name qos x ctx).1.overrun = true := by
  simp only [mqttSubscribe, h]
  rfl

/-- A subscription keeps the table exact when it fits, and only then. -/
theorem exact_subscribe (h : Exact ctx) (name : List UInt8) (qos : ℕ) (x : Exchange) {t : MQTTCtx}
    (ht : ctx.step (.subscribe name qos x) = some t) : Exact t ↔ Fits ctx (.subscribe name qos x) := by
  simp only [MQTTCtx.step, h.inside, Bool.false_eq_true, if_false, Option.some.injEq] at ht
  subst ht
  rcases h.cases with ⟨hcount, hnone⟩ | ⟨old, hcount, -, -⟩
  · obtain ⟨t, rc, sent, ht, hone, hfilter, hsub, hover, hmis, hacc⟩ := mqttSubscribe_empty hcount name qos x
    simp only [ht, Fits, hcount, true_and, ← hacc]
    have hlist : listed t = [some name] := by rw [listed_one hone, hfilter]
    constructor
    · intro hexact
      by_contra hrej
      rw [if_neg hrej] at hexact
      have htopics := hexact.topics
      rw [hlist, hsub, hnone] at htopics
      exact absurd htopics (by simp)
    · intro hacc
      rw [if_pos hacc]
      refine ⟨hover.trans h.inside, ?_, hmis.trans h.answered⟩
      have htopics : listed t = (t.subscribed ++ [name]).map some := by rw [hlist, hsub, hnone]; rfl
      exact htopics
  · have hover := mqttSubscribe_second hcount name qos x
    refine iff_of_false (fun hexact => ?_) fun hfits => ?_
    · have hinside := hexact.inside
      split_ifs at hinside
      · exact absurd (hover.symm.trans hinside) (by decide)
      · exact absurd (hover.symm.trans hinside) (by decide)
    · exact absurd (hcount.symm.trans hfits.1) (by decide)

/-- A cancellation is answered with 0 when its packet is sent and acknowledged. -/
theorem sendUnsubscribe_one (packetId : UInt16) (name : List UInt8) (qos : ℕ) (x : Exchange) (c : MQTTCtx) :
    (sendUnsubscribe packetId [(some name, qos)] x c).2.1 = 0 ↔ unsubscribeSize name ≤ txBufLen ∧ x.rc = 0 := by
  rw [← send_unsubscribe packetId name qos x]
  show (if (send (encodeUnsubscribe packetId [(some name, qos)]) x).1 ≠ 0 then (-1 : ℤ) else 0) = 0 ↔ _
  split_ifs with hrc
  · exact iff_of_false (by decide) hrc
  · exact iff_of_true rfl (not_not.1 hrc)

/-- **A topic that is not subscribed** is refused without a packet. -/
theorem mqttUnsubscribe_absent (h : Exact ctx) {name : List UInt8} (hname : name ∉ ctx.subscribed) (x : Exchange) :
    mqttUnsubscribe name x ctx = ((getPacketId ctx).1, -1, []) := by
  rcases h.cases with ⟨hcount, -⟩ | ⟨old, hcount, hfilter, hsub⟩
  · simp only [mqttUnsubscribe, getPacketId, hcount]
    rfl
  · have hne : old ≠ name := by
      rintro rfl
      exact hname (by rw [hsub]; exact List.mem_singleton_self _)
    simp only [mqttUnsubscribe, getPacketId, hcount, hfilter, Option.some.injEq, hne, if_false, if_true]

/-- A topic that is subscribed is sent for. -/
theorem mqttUnsubscribe_listed (h : Exact ctx) {name : List UInt8} (hname : name ∈ ctx.subscribed) (x : Exchange) :
    mqttUnsubscribe name x ctx =
      sendUnsubscribe (getPacketId ctx).2 [(some name, ctx.topics.qos)] x (getPacketId ctx).1 := by
  rcases h.cases with ⟨-, hnone⟩ | ⟨old, hcount, hfilter, hsub⟩
  · exact absurd hname (by simp [hnone])
  · have heq : old = name := by
      rw [hsub, List.mem_singleton] at hname
      exact hname.symm
    simp only [mqttUnsubscribe, getPacketId, hcount, hfilter, heq, if_true]

/-- A table that keeps its topic while it is not subscribed any more is wrong. -/
theorem not_exact_of_count {t : MQTTCtx} (hcount : t.topicsCount = 1) (hsub : t.subscribed = []) : ¬ Exact t := by
  intro h
  have htopics := h.topics
  rw [listed_one hcount, hsub] at htopics
  exact absurd htopics (by simp)

/-- The step of a cancellation. -/
theorem step_unsubscribe (h : Exact ctx) (name : List UInt8) (x : Exchange) {c : MQTTCtx} {rc : ℤ}
    {sent : List (List UInt8)} (hcall : mqttUnsubscribe name x ctx = (c, rc, sent)) :
    ctx.step (.unsubscribe name x) = some
      { c with
        misanswered := c.misanswered || (!ctx.subscribed.contains name && (rc ≠ -1 || sent ≠ []))
        subscribed := if rc = 0 then c.subscribed.filter (· ≠ name) else c.subscribed } := by
  simp only [MQTTCtx.step, h.inside, Bool.false_eq_true, if_false, hcall]
  split_ifs <;> rfl

/-- **A cancellation** takes no topic out of the table. -/
theorem exact_unsubscribe (h : Exact ctx) (name : List UInt8) (x : Exchange) {t : MQTTCtx}
    (ht : ctx.step (.unsubscribe name x) = some t) : Exact t ↔ Fits ctx (.unsubscribe name x) := by
  by_cases hname : name ∈ ctx.subscribed
  · obtain ⟨hcount, hsub⟩ : ctx.topicsCount = 1 ∧ ctx.subscribed = [name] := by
      rcases h.cases with ⟨-, hnone⟩ | ⟨old, hcount, -, hsub⟩
      · exact absurd hname (by simp [hnone])
      · rw [hsub, List.mem_singleton] at hname
        exact ⟨hcount, by rw [hsub, hname]⟩
    set a := sendUnsubscribe (getPacketId ctx).2 [(some name, ctx.topics.qos)] x (getPacketId ctx).1 with ha
    have hcall : mqttUnsubscribe name x ctx = (a.1, a.2.1, a.2.2) := mqttUnsubscribe_listed h hname x
    have hctx : a.1 = (getPacketId ctx).1 := rfl
    have hrc := sendUnsubscribe_one (getPacketId ctx).2 name ctx.topics.qos x (getPacketId ctx).1
    have hfits : Fits ctx (.unsubscribe name x) ↔ ¬ a.2.1 = 0 := by
      rw [ha, hrc, Fits, not_and_or, not_le, or_comm]
      exact ⟨fun hf => hf hname, fun hf _ => hf⟩
    rw [step_unsubscribe h name x hcall] at ht
    obtain rfl := Option.some.inj ht
    rw [hfits]
    by_cases hzero : a.2.1 = 0
    · refine iff_of_false (not_exact_of_count hcount ?_) (not_not.2 hzero)
      rw [if_pos hzero, hctx]
      simp [getPacketId, hsub]
    · refine iff_of_true ⟨h.inside, ?_, ?_⟩ hzero
      · rw [if_neg hzero]
        exact h.topics
      · simp [hname, hctx, getPacketId, h.answered]
  · rw [step_unsubscribe h name x (mqttUnsubscribe_absent h hname x)] at ht
    obtain rfl := Option.some.inj ht
    refine iff_of_true ⟨h.inside, h.topics, ?_⟩ fun hin => absurd hin hname
    simp [getPacketId, h.answered]

/-- The step of a cancellation of all topics. -/
theorem step_unsubscribeAll (h : Exact ctx) (x : Exchange) :
    ctx.step (.unsubscribeAll x) = some
      { (mqttUnsubscribeAll x ctx).1 with
        subscribed := if (mqttUnsubscribeAll x ctx).2.1 = 0 then [] else (mqttUnsubscribeAll x ctx).1.subscribed } := by
  simp only [MQTTCtx.step, h.inside, Bool.false_eq_true, if_false]
  split_ifs <;> rfl

/-- A cancellation of all topics takes none out of the table either. -/
theorem exact_unsubscribeAll (h : Exact ctx) (x : Exchange) {t : MQTTCtx}
    (ht : ctx.step (.unsubscribeAll x) = some t) : Exact t ↔ Fits ctx (.unsubscribeAll x) := by
  rw [step_unsubscribeAll h x] at ht
  obtain rfl := Option.some.inj ht
  rcases h.cases with ⟨hcount, hsub⟩ | ⟨name, hcount, hfilter, hsub⟩
  · have hcall : (mqttUnsubscribeAll x ctx).1 = (getPacketId ctx).1 := by
      simp only [mqttUnsubscribeAll, getPacketId, hcount]
      rfl
    have hkeep : (if (mqttUnsubscribeAll x ctx).2.1 = 0 then [] else (mqttUnsubscribeAll x ctx).1.subscribed) =
        ctx.subscribed := by
      rw [hcall, hsub]
      exact ite_eq_left_iff.2 fun _ => hsub
    rw [hkeep, hcall]
    refine iff_of_true ⟨h.inside, h.topics, h.answered⟩ fun name hname => ?_
    rw [hsub] at hname
    exact absurd hname (by simp)
  · set a := sendUnsubscribe (getPacketId ctx).2 [(some name, ctx.topics.qos)] x (getPacketId ctx).1 with ha
    have hcall : mqttUnsubscribeAll x ctx = a := by
      simp only [mqttUnsubscribeAll, getPacketId, hcount, hfilter, ha]
    have hctx : a.1 = (getPacketId ctx).1 := rfl
    have hrc := sendUnsubscribe_one (getPacketId ctx).2 name ctx.topics.qos x (getPacketId ctx).1
    have hfits : Fits ctx (.unsubscribeAll x) ↔ ¬ a.2.1 = 0 := by
      rw [ha, hrc, Fits, hsub, List.forall_mem_singleton, not_and_or, not_le, or_comm]
    rw [hfits, hcall, hctx]
    by_cases hzero : a.2.1 = 0
    · rw [if_pos hzero]
      exact iff_of_false (not_exact_of_count hcount rfl) (not_not.2 hzero)
    · rw [if_neg hzero]
      exact iff_of_true ⟨h.inside, h.topics, h.answered⟩ hzero

end Steps

/-- **The table is exact** throughout the runs whose calls fit, and in no others. -/
theorem exact_iff (calls : List TableCall) :
    Upholds MQTTCtx.step Exact .init calls ↔ Orderly MQTTCtx.step Fits .init calls := by
  have hstep : ∀ (ctx : MQTTCtx) call t, Exact ctx → ctx.step call = some t → (Exact t ↔ Fits ctx call) := by
    intro ctx call t h ht
    cases call with
    | subscribe name qos x => exact exact_subscribe h name qos x ht
    | unsubscribe name x => exact exact_unsubscribe h name x ht
    | unsubscribeAll x => exact exact_unsubscribeAll h x ht
    | publish data name rc =>
      simp only [MQTTCtx.step, h.inside, Bool.false_eq_true, if_false, Option.some.injEq] at ht
      subst ht
      exact iff_of_true ⟨h.inside, h.topics, h.answered⟩ trivial
  apply upholds_iff_orderly (I := Exact)
  · exact fun ctx h => h
  · exact fun ctx call t h hgood ht => (hstep ctx call t h ht).2 hgood
  · exact fun ctx call t h hbad ht hexact => hbad ((hstep ctx call t h ht).1 hexact)
  · exact ⟨rfl, rfl, rfl⟩

/-- The broker does not answer the first subscription; the topic stays in the table. -/
theorem unanswered_topic_listed :
    ¬ Upholds MQTTCtx.step Exact .init [.subscribe [47, 97] 0 ⟨-7, none⟩] := by
  intro h
  have hlast := (h.2 _ rfl).first
  exact absurd hlast.topics (by decide)

end W601.Mqtt.Table
