import ChatRelay.Chat.Rehearsal
import ChatRelay.Config.Yaml
import ChatRelay.Message.File
import ChatRelay.Proofs.Chat.Accounting
import ChatRelay.Proofs.Chat.Consumer
import ChatRelay.Proofs.Chat.Sending
import ChatRelay.Proofs.Chat.Settlement
import ChatRelay.Proofs.Claude.Stream
import ChatRelay.Proofs.Gemini.Stream
import ChatRelay.Proofs.Message.Joined
import ChatRelay.Proofs.Ollama.Stream
import ChatRelay.Proofs.OpenAI.Stream
import ChatRelay.Proofs.Stream.Closing
import ChatRelay.Proofs.Stream.Ids
import ChatRelay.Proofs.Stream.Written
import ChatRelay.Stream.ChannelOp
import ChatRelay.Proofs.Stream.Skipping
import ChatRelay.Proofs.Json.Members
import ChatRelay.Proofs.Vendor.Conversation
import ChatRelay.Proofs.Vendor.Replay
import ChatRelay.Proofs.Stream.Numbering
import ChatRelay.Proofs.Vendor.Numbering
import ChatRelay.Proofs.Stream.Separation
import ChatRelay.Proofs.Claude.Foreign
import ChatRelay.Proofs.Vendor.SystemTexts
import ChatRelay.Proofs.Components
import ChatRelay.Proofs.Http.Answers
import ChatRelay.Proofs.Gemini.Rounds
import ChatRelay.Proofs.Vendor.Turns
import ChatRelay.Proofs.Vendor.Parts
import ChatRelay.Proofs.Vendor.Positions
import ChatRelay.Proofs.Chat.Reported
import ChatRelay.Proofs.Tool.Rejected
import ChatRelay.Stream.Traffic
import ChatRelay.Proofs.Stream.Traffic
import ChatRelay.Proofs.Callback.Fanout
import ChatRelay.Proofs.Message.Lossless
