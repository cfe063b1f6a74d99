import Fluo.Microservices.KafkaTransport
import Fluo.Microservices.RabbitMqTransport

/-!
# Broker transports own their consumers

The two transports side by side: what holds in every run, what holds while the
broker takes back what it has to, and what happens when it does not.
-/

namespace Fluo.Microservices.BrokerTransports

open Fluo.Microservices.BrokerRequests

variable {V : Type}

/-- In every run the requests settle; while the calls of `unsubscribe` of Kafka, and
those of `cancel` in the rollback of RabbitMQ, do not fail, the transport owns its
consumers. -/
theorem broker_transports (topics : Topics) (requestTimeoutMs : Nat) :
    (∀ (es : List (KafkaTransport.Event V)) (s : KafkaTransport.Transport V),
      Run.run (KafkaTransport.step topics requestTimeoutMs) .initial es = some s →
        KafkaTransport.Settles topics requestTimeoutMs s ∧
        (Run.Throughout (KafkaTransport.step topics requestTimeoutMs) KafkaTransport.Careful .initial es →
          KafkaTransport.Owns topics s)) ∧
    ∀ (es : List (RabbitMqTransport.Event V)) (s : RabbitMqTransport.Transport V),
      Run.run (RabbitMqTransport.step topics requestTimeoutMs) .initial es = some s →
        RabbitMqTransport.Settles topics requestTimeoutMs s ∧
        (Run.Throughout (RabbitMqTransport.step topics requestTimeoutMs) RabbitMqTransport.Careful .initial es →
          RabbitMqTransport.Owns s) :=
  ⟨fun _ _ run => ⟨KafkaTransport.run_settles run, KafkaTransport.run_owns run⟩,
    fun _ _ run => ⟨RabbitMqTransport.run_settles run, RabbitMqTransport.run_owns run⟩⟩

def names : Topics := ⟨"events", "messages", "responses", by decide⟩

/-- A request is answered, then the transport is closed. -/
def kafkaRun : List (KafkaTransport.Event Nat) :=
  [.listen, .subscribed none, .subscribed none, .subscribed none, .send "ping" (some false), .request 0 .dispatch,
    .request 0 (.published none), .request 0 (.response none 7), .close, .unsubscribed none, .unsubscribed none,
    .unsubscribed none]

/-- As `kafkaRun`, but one queue is cancelled only by the second `close`. -/
def rabbitMqRun : List (RabbitMqTransport.Event Nat) :=
  [.listen, .send "ping" none, .consumed none, .consumed none, .consumed none, .request 0 .dispatch,
    .request 0 (.published none), .request 0 (.response none 7), .close, .cancelled none, .cancelled (some "broker"),
    .cancelled none, .close, .cancelled none]

theorem broker_transports_run :
    (∃ s, Run.run (KafkaTransport.step names 3000) .initial kafkaRun = some s ∧ KafkaTransport.Owns names s) ∧
    ∃ s, Run.run (RabbitMqTransport.step names 3000) .initial rabbitMqRun = some s ∧ RabbitMqTransport.Owns s := by
  have kafka : Run.Throughout (KafkaTransport.step names 3000) KafkaTransport.Careful .initial kafkaRun :=
    Run.throughout_of_forall (by simp [kafkaRun, KafkaTransport.Careful]) _
  have rabbitMq : Run.Throughout (RabbitMqTransport.step names 3000) RabbitMqTransport.Careful .initial rabbitMqRun :=
    Run.throughout_of_forall (by simp [rabbitMqRun, RabbitMqTransport.Careful]) _
  exact ⟨⟨_, rfl, ((broker_transports names 3000).1 kafkaRun _ rfl).2 kafka⟩,
    ⟨_, rfl, ((broker_transports names 3000).2 rabbitMqRun _ rfl).2 rabbitMq⟩⟩

/-- Kafka forgets a consumer that `close` could not unsubscribe, and subscribes again. -/
def kafkaForgets : List (KafkaTransport.Event Nat) :=
  [.listen, .subscribed none, .subscribed none, .subscribed none, .close, .unsubscribed (some "broker"),
    .unsubscribed none, .unsubscribed none]

/-- RabbitMQ forgets a consumer that the rollback of `listen` could not cancel. -/
def rabbitMqForgets : List (RabbitMqTransport.Event Nat) :=
  [.listen, .consumed none, .consumed (some "broker"), .rolledBack (some "broker")]

/-- After a rejected `close` of Kafka and a rejected `listen` of RabbitMQ a consumer is
live that no later `close` would cancel, and the next `listen` starts a second one. -/
theorem consumers_forgotten :
    (∃ s, Run.run (KafkaTransport.step names 3000) .initial kafkaForgets = some s ∧
      s.closed = some (.error "broker") ∧ "events" ∈ s.live ∧ s.owned names = [] ∧
      ∃ t, Run.run (KafkaTransport.step names 3000) s [.listen, .subscribed none] = some t ∧
        t.live = ["events", "events"]) ∧
    ∃ s, Run.run (RabbitMqTransport.step names 3000) .initial rabbitMqForgets = some s ∧
      s.listenPromise = none ∧ "events" ∈ s.live ∧ s.owned = [] ∧
      ∃ t, Run.run (RabbitMqTransport.step names 3000) s [.listen, .consumed none] = some t ∧
        t.live = ["events", "events"] :=
  ⟨⟨_, rfl, rfl, by decide, rfl, _, rfl, rfl⟩, ⟨_, rfl, rfl, by decide, rfl, _, rfl, rfl⟩⟩

end Fluo.Microservices.BrokerTransports
