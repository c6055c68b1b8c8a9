import ReplyStream.Log
import ReplyStream.Payload
import ReplyStream.Proofs.Room.ReadBack
import ReplyStream.Proofs.Turn.Heal
import ReplyStream.Replay
import ReplyStream.Segment.Basic
import ReplyStream.Throttle.Session
import ReplyStream.Turn.Run
import ReplyStream.Proofs.Chain.Resume
import ReplyStream.Proofs.Chain.Sound
import ReplyStream.Proofs.Chain.InTurn
import ReplyStream.Proofs.Throttle.Fates
import ReplyStream.Proofs.Room.Order
import ReplyStream.Proofs.Throttle.Shut
import ReplyStream.Proofs.Timeline.Groups
import ReplyStream.Proofs.Turn.Fail
import ReplyStream.Proofs.Timeline.Documents
import ReplyStream.Proofs.Timeline.Newest
import ReplyStream.Proofs.Timeline.Shape
import ReplyStream.Proofs.Timeline.Collapse
import ReplyStream.Proofs.Draft.Total
import ReplyStream.Proofs.Replay
import ReplyStream.Proofs.Segment.Cut
import ReplyStream.Proofs.Segment.Scan
import ReplyStream.Proofs.Cache.Desk
import ReplyStream.Proofs.Cache.Genuine
import ReplyStream.Proofs.Throttle.Quiet
import ReplyStream.Proofs.Throttle.Spacing
import ReplyStream.Proofs.Turn.Failures
import ReplyStream.Proofs.Event
import ReplyStream.Proofs.Segment.Gap
import ReplyStream.Proofs.Timeline.Aggregated
import ReplyStream.Proofs.Timeline.Contained
import ReplyStream.Proofs.Draft.Signal
import ReplyStream.Proofs.Draft.Clean
import ReplyStream.Proofs.Draft.Calls
import ReplyStream.Proofs.Chain.Carve
import ReplyStream.Proofs.Chain.Leftover
import ReplyStream.Proofs.Cache.Recency
import ReplyStream.Proofs.Room.Logged
import ReplyStream.Proofs.Event.Decoding
import ReplyStream.Proofs.Chain.Tally
import ReplyStream.Proofs.Config.Layers
import ReplyStream.Proofs.Room.Later
import ReplyStream.Proofs.Segment.Withheld
