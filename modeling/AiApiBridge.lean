import AiApiBridge.AnthropicDialect
import AiApiBridge.ArrivalOrder
import AiApiBridge.ContactedCandidates
import AiApiBridge.EventRoundTrip
import AiApiBridge.FailedCompletion
import AiApiBridge.InsertedParents
import AiApiBridge.Isolation
import AiApiBridge.KeyRotation
import AiApiBridge.OutputOrder
import AiApiBridge.Relay
import AiApiBridge.RequestCap
import AiApiBridge.Secrets
import AiApiBridge.ServedModels
import AiApiBridge.StarvedCalls
import AiApiBridge.StatusSources
import AiApiBridge.StoredProviders
import AiApiBridge.StreamStory
import AiApiBridge.ThinkingReplay
import AiApiBridge.ToolArguments
import AiApiBridge.UsageRelief
