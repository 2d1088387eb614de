import FastCgi.Copies
import FastCgi.Truncation
import FastCgi.Validity
import FastCgi.Isolation
import FastCgi.KeepConn
import FastCgi.Errno
import FastCgi.Submission
import FastCgi.Libco.Hooks
import FastCgi.Process
import FastCgi.Muduo.EventLoop
import FastCgi.Muduo.PollPoller
import FastCgi.Muduo.Threads
import FastCgi.Muduo.Timers
